import Playbook.Proofs.Manifest.Feature
import Playbook.Proofs.Value.Short

/-!
# Records of accepted documents

For each kind of manifest, a document that its schema accepts is read as a
record with the id that stands in it. Only a number that has to become a text
can be in the way, since the schemas set no bound on numbers.
-/

namespace Playbook

open Validation (field membersOf field_eq_of_ok)

/-! ## What was turned into texts -/

namespace Value

variable {v : Value}

theorem isShowable_of_optionalText {found : Option String} (h : v.optionalText = .ok found) :
    v.isShowable = true := by
  have hshown {x : Value} (h : x.shown.map some = .ok found) : x.isShowable = true := by
    cases hx : x.shown with
    | error fault =>
        rw [hx] at h
        cases h
    | ok s => exact (shown_eq_ok_iff.1 hx).1
  cases v with
  | null | text => rfl
  | _ => exact hshown h

theorem isShowable_of_textPair {entry : Value × Value} {pair : String × String}
    (h : textPair entry = .ok pair) : entry.1.isShowable = true ∧ entry.2.isShowable = true := by
  obtain ⟨key, hkey, h⟩ := Attempt.of_bind_ok h
  refine ⟨(shown_eq_ok_iff.1 hkey).1, ?_⟩
  cases hvalue : entry.2 with
  | null => rfl
  | _ =>
      rw [hvalue] at h
      obtain ⟨text, htext, -⟩ := Attempt.of_bind_ok h
      exact (shown_eq_ok_iff.1 htext).1

/-- A mapping that is not given has no entries, and so nothing takes its place. -/
theorem entries_orElse {es : Entries} (h : v.opened = .mapping es) :
    (v.orElse (.mapping [])).entries = .ok es := by
  rw [orElse]
  split
  · rw [entries, h]
  · rename_i hgiven
    cases v with
    | mapping own =>
        cases h
        simp only [isGiven, Bool.not_eq_true', Bool.not_eq_false] at hgiven
        rw [List.isEmpty_iff.1 hgiven]
        rfl
    | cycle name content => exact absurd rfl hgiven
    | _ => cases h

theorem isShowable_of_textPairs {found : List (String × String)} (h : v.textPairs = .ok found)
    {es : Entries} (hv : v.opened = .mapping es) :
    ∀ entry ∈ es, entry.1.isShowable = true ∧ entry.2.isShowable = true := by
  intro entry hentry
  have hes := entries_orElse hv
  rw [orElse] at hes
  cases hgiven : v.isGiven with
  | false =>
      rw [hgiven] at hes
      cases hes
      cases hentry
  | true =>
      rw [hgiven] at hes
      rw [textPairs, hgiven] at h
      obtain ⟨own, hown, hpairs⟩ := Attempt.of_bind_ok h
      cases hes.symm.trans hown
      obtain ⟨pair, -, hpair⟩ := exists_right_of_mem (Attempt.of_mapM_ok hpairs) hentry
      exact isShowable_of_textPair hpair

end Value

theorem Prompt.showable_of_ofValue {v : Value} {sourcePath : String} {prompt : Prompt}
    (h : ofValue v sourcePath = .ok prompt) : Showable v := by
  obtain ⟨listed, hlisted, h⟩ := Attempt.of_bind_ok h
  obtain ⟨members, hmembers, h⟩ := Attempt.of_bind_ok h
  obtain ⟨declared, hdeclared, -⟩ := Attempt.of_bind_ok h
  intro items hitems x hx
  rw [membersOf, field_eq_of_ok hlisted, hmembers] at hitems
  cases hitems
  obtain ⟨declaration, -, hvariable⟩ := exists_right_of_mem (Attempt.of_mapM_ok hdeclared) hx
  iterate 3 obtain ⟨_, _, hvariable⟩ := Attempt.of_bind_ok hvariable
  obtain ⟨fallback, hfallback, hvariable⟩ := Attempt.of_bind_ok hvariable
  obtain ⟨_, htext, -⟩ := Attempt.of_bind_ok hvariable
  rw [field_eq_of_ok hfallback]
  exact Value.isShowable_of_optionalText htext

theorem Recipe.showable_of_ofValue {v : Value} {recipe : Recipe} (h : ofValue v = .ok recipe) :
    Showable v := by
  obtain ⟨options, hoptions, h⟩ := Attempt.of_bind_ok h
  obtain ⟨given, hgiven, h⟩ := Attempt.of_bind_ok h
  obtain ⟨_, hentries, h⟩ := Attempt.of_bind_ok h
  iterate 11 obtain ⟨_, _, h⟩ := Attempt.of_bind_ok h
  obtain ⟨raw, hvariables, h⟩ := Attempt.of_bind_ok h
  obtain ⟨_, hpairs, -⟩ := Attempt.of_bind_ok h
  constructor
  case defaults =>
    intro es hes
    rw [field_eq_of_ok hvariables] at hes
    exact Value.isShowable_of_textPairs hpairs hes
  case options =>
    intro es hes entry hentry
    rw [field_eq_of_ok hoptions] at hes
    cases (Value.entries_orElse hes).symm.trans hgiven
    obtain ⟨_, -, htool⟩ := exists_right_of_mem (Attempt.of_mapM_ok hentries) hentry
    obtain ⟨_, hname, -⟩ := Attempt.of_bind_ok htool
    exact (Value.shown_eq_ok_iff.1 hname).1

/-! ## Features -/

/-- A record's id is the filled text that its document has for one. -/
def HasId (v : Value) (own : Value) : Prop :=
  ∃ id, id ≠ "" ∧ field v "id" = .text id ∧ own = .text id

/-- The numbers that are turned into texts are short enough. -/
def Feature.Showable (v : Value) : Prop :=
  ∀ es, (field (field v "recipe") "context").opened = .mapping es →
    ∀ entry ∈ es, entry.1.isShowable = true ∧ entry.2.isShowable = true

theorem Validation.isGiven_of_field {v : Value} {name s : String} (h : field v name = .text s) :
    v.isGiven = true := by
  obtain ⟨es, hv, hx⟩ := get?_of_field h
  cases v with
  | mapping own =>
      cases hv
      cases es with
      | nil => cases hx
      | cons entry es => rfl
  | cycle name content => rfl
  | _ => cases hv

/-- The binding of a feature has an id, so that its context is read. -/
theorem RecipeBinding.exists_ofValue_iff {v : Value} {fields : List (String × Schema)}
    {names : List String} (proper : v.Proper) (h : (Schema.objectWith names fields).Accepts v)
    (hid : fields.lookup "id" = some Schema.filledText) (hlisted : "id" ∈ names)
    (htools : fields.lookup "tools" = some Schema.texts) :
    (∃ found, ofValue? v = .ok found) ↔ ∃ found, (field v "context").textPairs = .ok found := by
  obtain ⟨fits, hrequired⟩ := Fits.of_objectWith proper h
  obtain ⟨id, hfilled, hid, -⟩ := fits.requiredText "id" hid hrequired hlisted
  obtain ⟨tools, htools, -⟩ := fits.texts "tools" htools
  have hgiven : (Value.text id).isGiven = true := by
    simpa [Value.isGiven, String.isEmpty_iff] using hfilled
  rw [ofValue?]
  simp only [Validation.isGiven_of_field hid, fits.field_eq, hid, hgiven, htools, bind, Except.bind,
    pure, Except.pure, Bool.not_true, Bool.false_eq_true, if_false]
  cases (field v "context").textPairs with
  | error fault => simp
  | ok found => simp

theorem Feature.exists_ofValue {v : Value} (proper : v.Proper)
    (h : ManifestSchema.feature.schema.Accepts v) (showable : Showable v) :
    ∃ feature, ofValue v = .ok feature ∧ HasId v feature.id := by
  obtain ⟨fits, hrequired⟩ := Fits.of_objectWith proper h
  obtain ⟨id, hfilled, hid, hread⟩ := fits.requiredText "id" rfl hrequired List.mem_cons_self
  obtain ⟨version, hversion⟩ := fits.shownOr "version" rfl
  obtain ⟨model, hmodel⟩ := fits.optionalText "model" rfl
  obtain ⟨recipe, hrecipe⟩ : ∃ found, RecipeBinding.ofValue? (field v "recipe") = .ok found := by
    rcases fits.field_cases "recipe" rfl with hnull | ⟨haccepts, hproper⟩
    · exact ⟨none, by rw [hnull]; rfl⟩
    · refine (RecipeBinding.exists_ofValue_iff hproper haccepts rfl List.mem_cons_self rfl).2 ?_
      refine Value.exists_textPairs showable ?_
      obtain ⟨fits, -⟩ := Fits.of_objectWith hproper haccepts
      rcases fits.field_cases "context" rfl with hnull | ⟨haccepts, -⟩
      · exact .inl hnull
      · exact .inr (haccepts.mapping List.mem_cons_self)
  simp only [ofValue, fits.field_eq]
  simp only [hread, hversion, hmodel, hrecipe, bind, Except.bind, Value.shown_text, pure,
    Except.pure]
  exact ⟨_, rfl, id, hfilled, hid, rfl⟩

theorem Feature.showable_of_ofValue {v : Value} (proper : v.Proper)
    (h : ManifestSchema.feature.schema.Accepts v) {feature : Feature}
    (hread : ofValue v = .ok feature) : Showable v := by
  intro es hes
  obtain ⟨fits, -⟩ := Fits.of_objectWith proper h
  rcases fits.field_cases "recipe" rfl with hnull | ⟨haccepts, hproper⟩
  · rw [hnull] at hes
    cases hes
  · obtain ⟨pairs, hpairs⟩ :=
      (RecipeBinding.exists_ofValue_iff hproper haccepts rfl List.mem_cons_self rfl).1
        ⟨_, (of_ofValue hread).2⟩
    exact Value.isShowable_of_textPairs hpairs hes

/-! ## Projects -/

/-- The numbers that are turned into texts are short enough. -/
def Project.Showable (v : Value) : Prop :=
  ∀ es, (field v "tech_stacks").opened = .mapping es → ∀ entry ∈ es, entry.1.isShowable = true

theorem Project.showable_of_ofValue {v : Value} {sourceDir : String} {project : Project}
    (h : ofValue v sourceDir = .ok project) : Showable v := by
  obtain ⟨named, hnamed, h⟩ := Attempt.of_bind_ok h
  iterate 9 obtain ⟨_, _, h⟩ := Attempt.of_bind_ok h
  obtain ⟨given, hgiven, h⟩ := Attempt.of_bind_ok h
  obtain ⟨named, hstacks, -⟩ := Attempt.of_bind_ok h
  intro es hes entry hentry
  rw [field_eq_of_ok hnamed] at hes
  cases (Value.entries_orElse hes).symm.trans hgiven
  obtain ⟨stack, -, hstack⟩ := exists_right_of_mem (Attempt.of_mapM_ok hstacks) hentry
  obtain ⟨name, hname, -⟩ := Attempt.of_bind_ok hstack
  exact (Value.shown_eq_ok_iff.1 hname).1

namespace Fits

variable {fields : List (String × Schema)} {v : Value}

theorem of_rules {keywords : List Keyword} (proper : v.Proper)
    (h : (Schema.rules keywords).Accepts v) (htype : Keyword.type [.object] ∈ keywords)
    (hfields : Keyword.properties fields ∈ keywords) : Fits fields v where
  mapping := h.mapping htype
  proper := proper
  accepts hfield hv hx := (h.of_mem hfields).property hv hfield hx

theorem orEmpty (h : v = .null ∨ Fits fields v) : Fits fields (v.orElse (.mapping [])) := by
  rw [Value.orElse]
  split
  · rename_i hgiven
    rcases h with rfl | h
    · cases hgiven
    · exact h
  · exact .empty fields

/-- A list of texts whose schema stands elsewhere. -/
theorem referred (fits : Fits fields v) (name : String) {target : String} {more : List Keyword}
    (hfield : fields.lookup name = some (.reference target
      (.rules [.type [.array], .items (.rules (.type [.string] :: more))]))) :
    ∃ names : List String, (field v name).texts = .ok names := by
  rcases fits.field_cases name hfield with hnull | ⟨haccepts, proper⟩
  · exact ⟨[], by rw [hnull]; rfl⟩
  · obtain ⟨names, hnames⟩ := haccepts.of_reference.listed proper List.mem_cons_self
      (List.mem_cons_of_mem _ List.mem_cons_self) List.mem_cons_self
    exact ⟨names, Value.texts_eq hnames⟩

end Fits

theorem TechStack.exists_ofValue {v : Value}
    (h : v = .null ∨ ManifestSchema.techStack.Accepts v ∧ v.Proper) :
    ∃ stack, ofValue (v.orElse (.mapping [])) = .ok stack := by
  have fits := Fits.orEmpty (h.imp_right fun h => Fits.of_object h.2 h.1.of_reference)
  obtain ⟨languages, hlanguages⟩ := fits.referred "languages" rfl
  obtain ⟨frontend, hfrontend⟩ := fits.referred "frontend" rfl
  obtain ⟨backend, hbackend⟩ := fits.referred "backend" rfl
  obtain ⟨database, hdatabase⟩ := fits.referred "database" rfl
  obtain ⟨infrastructure, hinfrastructure⟩ := fits.referred "infrastructure" rfl
  obtain ⟨tools, htools⟩ := fits.referred "tools" rfl
  simp only [ofValue, fits.field_eq]
  simp only [hlanguages, hfrontend, hbackend, hdatabase, hinfrastructure, htools, bind,
    Except.bind, pure, Except.pure]
  exact ⟨_, rfl⟩

theorem AiTools.exists_ofValue {v : Value}
    (h : v = .null ∨ ManifestSchema.aiTools.Accepts v ∧ v.Proper) :
    ∃ tools, ofValue (v.orElse (.mapping [])) = .ok tools := by
  have fits := Fits.orEmpty (h.imp_right fun h => Fits.of_rules h.2 h.1 List.mem_cons_self
    (List.mem_cons_of_mem _ List.mem_cons_self))
  have hadmission (category : Category) :
      ∃ lists, admissionOf (v.orElse (.mapping [])) category = .ok lists := by
    obtain ⟨whitelist, hwhitelist⟩ := fits.referred (whitelistField category)
      (by cases category <;> rfl)
    obtain ⟨blacklist, hblacklist⟩ := fits.referred (blacklistField category)
      (by cases category <;> rfl)
    simp only [admissionOf, fits.field_eq]
    simp only [hwhitelist, hblacklist, bind, Except.bind, pure, Except.pure]
    exact ⟨_, rfl⟩
  obtain ⟨model, hmodel⟩ := fits.optionalText "model" rfl
  obtain ⟨agents, hagents⟩ := hadmission .agents
  obtain ⟨prompts, hprompts⟩ := hadmission .prompts
  obtain ⟨rulepacks, hrulepacks⟩ := hadmission .rulepacks
  obtain ⟨recipes, hrecipes⟩ := hadmission .recipes
  obtain ⟨preferredAgents, hpreferredAgents⟩ := fits.referred "preferred_agents" rfl
  obtain ⟨preferredRulepacks, hpreferredRulepacks⟩ := fits.referred "preferred_rulepacks" rfl
  obtain ⟨customRules, hcustomRules, -⟩ := fits.texts "custom_rules" rfl
  simp only [ofValue, fits.field_eq]
  simp only [hmodel, hagents, hprompts, hrulepacks, hrecipes, hpreferredAgents,
    hpreferredRulepacks, hcustomRules, bind, Except.bind, pure, Except.pure]
  exact ⟨_, rfl⟩

theorem Project.exists_ofValue {v : Value} (proper : v.Proper)
    (h : ManifestSchema.project.schema.Accepts v) (showable : Showable v) (sourceDir : String) :
    ∃ project, ofValue v sourceDir = .ok project ∧ HasId v project.id := by
  obtain ⟨fits, hrequired⟩ := Fits.of_objectWith proper h
  obtain ⟨id, hfilled, hid, hread⟩ := fits.requiredText "id" rfl hrequired List.mem_cons_self
  obtain ⟨version, hversion⟩ := fits.shownOr "version" rfl
  obtain ⟨aiTools, haiTools⟩ := AiTools.exists_ofValue (fits.field_cases "ai_tools" rfl)
  obtain ⟨techStack, htechStack⟩ := TechStack.exists_ofValue (fits.field_cases "tech_stack" rfl)
  obtain ⟨es, hes, hentries⟩ := fits.entries "tech_stacks" rfl
  have hstack : ∀ entry ∈ es, ∃ found, stackEntry entry = .ok found ∧ True := by
    intro entry hentry
    obtain ⟨haccepts, own, hown, hmem⟩ := hentries entry hentry
    have hproper : entry.2.Proper := by
      rcases fits.field_cases "tech_stacks" rfl with hnull | ⟨-, hproper⟩
      · rw [hnull] at hown
        cases hown
      · exact Value.hereditary_proper.entry hproper hown entry hmem
    obtain ⟨stack, hstack⟩ := TechStack.exists_ofValue (.inr ⟨haccepts, hproper⟩)
    rw [stackEntry, Value.shown_of_isShowable (showable own hown entry hmem), hstack]
    exact ⟨_, rfl, trivial⟩
  obtain ⟨techStacks, htechStacks, -⟩ := Attempt.exists_mapM hstack
  simp only [ofValue, fits.field_eq]
  simp only [hread, hversion, haiTools, htechStack, hes, htechStacks, bind, Except.bind,
    Value.shown_text, pure, Except.pure]
  exact ⟨_, rfl, id, hfilled, hid, rfl⟩

/-! ## All kinds -/

namespace ManifestKind

def Record : ManifestKind → Type
  | .rulepack => Rulepack
  | .agent => Agent
  | .prompt => Prompt
  | .recipe => Recipe
  | .project => Project
  | .feature => Feature

def recordId : (kind : ManifestKind) → kind.Record → Value
  | .rulepack => Rulepack.id
  | .agent => Agent.id
  | .prompt => Prompt.id
  | .recipe => Recipe.id
  | .project => Project.id
  | .feature => Feature.id

/-- The reader of a kind; prompts and projects keep the place that they come from. -/
def read (place : String) : (kind : ManifestKind) → Value → Attempt kind.Record
  | .rulepack => Rulepack.ofValue
  | .agent => Agent.ofValue
  | .prompt => (Prompt.ofValue · place)
  | .recipe => Recipe.ofValue
  | .project => (Project.ofValue · place)
  | .feature => Feature.ofValue

/-- No number that the reader of a kind turns into a text has too many digits. -/
def Showable : ManifestKind → Value → Prop
  | .rulepack | .agent => fun _ => True
  | .prompt => Prompt.Showable
  | .recipe => Recipe.Showable
  | .project => Project.Showable
  | .feature => Feature.Showable

variable {kind : ManifestKind} {v : Value} {place : String}

theorem showable_of_short (h : v.Short) (kind : ManifestKind) : kind.Showable v := by
  have hentry {name : String} {es : Entries} {entry : Value × Value}
      (hes : (field v name).opened = .mapping es) (hmem : entry ∈ es) :
      entry.1.isShowable = true ∧ entry.2.isShowable = true :=
    ((h.field name).entry hes hmem).imp Value.Short.isShowable Value.Short.isShowable
  cases kind with
  | rulepack | agent => trivial
  | prompt =>
      intro items hitems x hx
      exact ((h.membersOf hitems x hx).field "default").isShowable
  | recipe =>
      refine ⟨fun es hes entry hmem => hentry hes hmem, fun es hes entry hmem => ?_⟩
      exact (hentry hes hmem).1
  | project => exact fun es hes entry hmem => (hentry hes hmem).1
  | feature =>
      intro es hes entry hmem
      exact (((h.field "recipe").field "context").entry hes hmem).imp Value.Short.isShowable
        Value.Short.isShowable

theorem exists_read (proper : v.Proper) (h : kind.schema.schema.Accepts v)
    (showable : kind.Showable v) (place : String) :
    ∃ record, kind.read place v = .ok record ∧ HasId v (kind.recordId record) := by
  cases kind with
  | rulepack =>
      obtain ⟨pack, hpack, reads⟩ := Rulepack.exists_ofValue proper h
      exact ⟨pack, hpack, reads.id⟩
  | agent =>
      obtain ⟨agent, hagent, reads⟩ := Agent.exists_ofValue proper h
      exact ⟨agent, hagent, reads.id⟩
  | prompt =>
      obtain ⟨prompt, hprompt, reads⟩ := Prompt.exists_ofValue proper h showable place
      exact ⟨prompt, hprompt, reads.id⟩
  | recipe =>
      obtain ⟨recipe, hrecipe, reads⟩ := Recipe.exists_ofValue proper h showable
      exact ⟨recipe, hrecipe, reads.id⟩
  | project => exact Project.exists_ofValue proper h showable place
  | feature => exact Feature.exists_ofValue proper h showable

theorem showable_of_read (proper : v.Proper) (h : kind.schema.schema.Accepts v) {place : String}
    {record : kind.Record} (hread : kind.read place v = .ok record) : kind.Showable v := by
  cases kind with
  | rulepack | agent => trivial
  | prompt => exact Prompt.showable_of_ofValue hread
  | recipe => exact Recipe.showable_of_ofValue hread
  | project => exact Project.showable_of_ofValue hread
  | feature => exact Feature.showable_of_ofValue proper h hread

/-- Whatever record is made of an accepted document has the id of the document. -/
theorem hasId_of_read (proper : v.Proper) (h : kind.schema.schema.Accepts v) {place : String}
    {record : kind.Record} (hread : kind.read place v = .ok record) :
    HasId v (kind.recordId record) := by
  obtain ⟨other, hother, hid⟩ := exists_read proper h (showable_of_read proper h hread) place
  cases hother.symm.trans hread
  exact hid

/-- An accepted document of a kind, with a value in a place where a number may stand. -/
def specimen (x : Value) : ManifestKind → Value
  | .rulepack => .mapping [(.text "id", .text "base"), (.text "rules", .list [])]
  | .agent => .mapping
      [(.text "id", .text "writer"), (.text "purpose", .text "To write."),
       (.text "defaults", .mapping [(.text "max_tokens", x)])]
  | .prompt => .mapping
      [(.text "id", .text "greet"), (.text "description", .text "A greeting."),
       (.text "content", .text "Hello."), (.text "variables", .list [.mapping
         [(.text "name", .text "count"), (.text "default", x)]])]
  | .recipe => .mapping
      [(.text "id", .text "draft"), (.text "steps", .list [.mapping
         [(.text "id", .text "write"), (.text "agent", .text "writer"),
          (.text "task", .text "Write.")]]),
       (.text "variables", .mapping [(.text "width", x)])]
  | .project => .mapping
      [(.text "id", .text "shop"), (.text "tech_stacks", .mapping [(x, .mapping [])])]
  | .feature => .mapping
      [(.text "id", .text "login"), (.text "recipe", .mapping
         [(.text "id", .text "draft"), (.text "context", .mapping [(.text "width", x)])])]

theorem specimen_proper (x : Value) (hx : x.Proper) (kind : ManifestKind) :
    (specimen x kind).Proper := by
  cases kind <;>
    simp [specimen, Value.Proper, Value.ProperEntries, Value.ProperItems, hx]

def isAccepted (kind : ManifestKind) (v : Value) : Bool :=
  match kind.schemaErrors v with
  | .ok errors => errors.isEmpty
  | .error _ => false

theorem schemaErrors_of_isAccepted (h : kind.isAccepted v = true) :
    kind.schemaErrors v = .ok [] := by
  rw [isAccepted] at h
  split at h
  · rename_i errors herrors
    rw [herrors, List.isEmpty_iff.1 h]
  · cases h

/-- An accepted document that is not read because of a number of 4301 digits. -/
def Unread (kind : ManifestKind) (v : Value) : Prop :=
  v.Proper ∧ kind.schemaErrors v = .ok [] ∧ kind.read "" v = .error (.tooManyDigits none)

def isTooLong {α : Type} (result : Attempt α) : Bool :=
  match result with
  | .error (.tooManyDigits none) => true
  | _ => false

theorem unread_of_isTooLong {n : Int}
    (haccepted : kind.isAccepted (specimen (.int n) kind) = true)
    (hread : isTooLong (kind.read "" (specimen (.int n) kind)) = true) :
    Unread kind (specimen (.int n) kind) := by
  refine ⟨specimen_proper (.int n) trivial kind, schemaErrors_of_isAccepted haccepted, ?_⟩
  unfold isTooLong at hread
  split at hread
  · assumption
  · cases hread

end ManifestKind

end Playbook
