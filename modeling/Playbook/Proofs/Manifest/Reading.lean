import Mathlib.Data.List.Forall2
import Playbook.Proofs.Schema
import Playbook.Validation

/-!
# Accepted documents can be read

A proper document that its schema accepts is read without a fault. Only the
numbers that are turned into texts have to be short enough.
-/

namespace Playbook

open Validation (field membersOf)

theorem Validation.field_of_mapping {v : Value} {es : Entries} (h : v.opened = .mapping es)
    (name : String) : field v name = (Entries.get? es name).getD .null := by
  rw [field, h]

/-! ## Mappings that follow a schema -/

/-- A proper mapping whose fields are accepted by some schemas. -/
structure Fits (fields : List (String × Schema)) (v : Value) : Prop where
  mapping : ∃ es, v.opened = .mapping es
  proper : v.Proper
  accepts : ∀ {name schema es x}, fields.lookup name = some schema → v.opened = .mapping es →
    Entries.get? es name = some x → schema.Accepts x

namespace Fits

variable {fields : List (String × Schema)} {v : Value}

theorem of_object (proper : v.Proper) (h : (Schema.object fields).Accepts v) : Fits fields v where
  mapping := h.mapping List.mem_cons_self
  proper := proper
  accepts hfield hv hx :=
    (h.of_mem (List.mem_cons_of_mem _ List.mem_cons_self)).property hv hfield hx

theorem of_objectWith {names : List String} (proper : v.Proper)
    (h : (Schema.objectWith names fields).Accepts v) :
    Fits fields v ∧ (Keyword.required names).Accepts v := by
  have hrequired := h.of_mem (List.mem_cons_of_mem _ List.mem_cons_self)
  have hfields := h.of_mem (List.mem_cons_of_mem _ (List.mem_cons_of_mem _ List.mem_cons_self))
  exact ⟨⟨h.mapping List.mem_cons_self, proper, fun hfield hv hx => hfields.property hv hfield hx⟩,
    hrequired⟩

theorem field_eq (fits : Fits fields v) (name : String) : v.field name = .ok (field v name) := by
  obtain ⟨es, hv⟩ := fits.mapping
  rw [Value.field_eq hv, Validation.field_of_mapping hv]

theorem field_cases (fits : Fits fields v) (name : String) {schema : Schema}
    (hfield : fields.lookup name = some schema) :
    field v name = .null ∨ schema.Accepts (field v name) ∧ (field v name).Proper := by
  obtain ⟨es, hv⟩ := fits.mapping
  rw [Validation.field_of_mapping hv]
  cases hx : Entries.get? es name with
  | none => exact .inl rfl
  | some x => exact .inr ⟨fits.accepts hfield hv hx, fits.proper.get? hv hx⟩

/-- A field that has to be there. -/
theorem required (fits : Fits fields v) (name : String) {schema : Schema}
    (hfield : fields.lookup name = some schema) {names : List String} (h : (Keyword.required names).Accepts v) (hname : name ∈ names) :
    v.required name = .ok (field v name) ∧ schema.Accepts (field v name) ∧
      (field v name).Proper := by
  obtain ⟨es, hv⟩ := fits.mapping
  obtain ⟨x, hx⟩ := h.required hv hname
  rw [Value.required_eq hv hx, Validation.field_of_mapping hv, hx, Option.getD_some]
  exact ⟨rfl, fits.accepts hfield hv hx, fits.proper.get? hv hx⟩

/-- A filled text that has to be there. -/
theorem requiredText (fits : Fits fields v) (name : String)
    (hfield : fields.lookup name = some Schema.filledText) {names : List String} (h : (Keyword.required names).Accepts v) (hname : name ∈ names) :
    ∃ s, s ≠ "" ∧ field v name = .text s ∧ v.required name = .ok (.text s) := by
  obtain ⟨hrequired, haccepts, proper⟩ := fits.required name hfield h hname
  obtain ⟨s, hs, heq⟩ := Schema.Accepts.filled proper haccepts
  exact ⟨s, hs, heq, heq ▸ hrequired⟩

theorem text (fits : Fits fields v) (name : String) {more : List Keyword}
    (hfield : fields.lookup name = some (.rules (.type [.string] :: more))) :
    field v name = .null ∨ ∃ s, field v name = .text s := by
  rcases fits.field_cases name hfield with hnull | ⟨haccepts, proper⟩
  · exact .inl hnull
  · exact .inr (Schema.Accepts.string proper haccepts List.mem_cons_self)

theorem optionalText (fits : Fits fields v) (name : String) {more : List Keyword}
    (hfield : fields.lookup name = some (.rules (.type [.string] :: more))) :
    ∃ found, (field v name).optionalText = .ok found := by
  rcases fits.text name hfield with hnull | ⟨s, hs⟩
  · exact ⟨none, by rw [hnull]; rfl⟩
  · exact ⟨_, by rw [hs]; rfl⟩

theorem textOrEmpty (fits : Fits fields v) (name : String) {more : List Keyword}
    (hfield : fields.lookup name = some (.rules (.type [.string] :: more))) :
    ∃ found, (field v name).textOrEmpty = .ok found := by
  rcases fits.text name hfield with hnull | ⟨s, hs⟩
  · exact ⟨"", by rw [hnull]; rfl⟩
  · rw [hs, Value.textOrEmpty, Value.orElse]
    split
    · exact ⟨s, rfl⟩
    · exact ⟨"", rfl⟩

/-- A text where it is given, and else a usual one. -/
theorem textOr (fits : Fits fields v) (name : String) {more : List Keyword}
    (hfield : fields.lookup name = some (.rules (.type [.string] :: more))) (usual : String) :
    ∃ s, (field v name).orElse (.text usual) = .text s := by
  rw [Value.orElse]
  split
  · rename_i hgiven
    rcases fits.text name hfield with hnull | hs
    · rw [hnull] at hgiven
      cases hgiven
    · exact hs
  · exact ⟨usual, rfl⟩

/-- A text with empty text for its default. -/
theorem shownOr (fits : Fits fields v) (name : String) {more : List Keyword}
    (hfield : fields.lookup name = some (.rules (.type [.string] :: more))) :
    ∃ s, v.fieldOr name (.text "") = .ok (.text s) := by
  obtain ⟨es, hv⟩ := fits.mapping
  rw [Value.fieldOr_eq hv]
  cases hx : Entries.get? es name with
  | none => exact ⟨"", rfl⟩
  | some x =>
      obtain ⟨s, rfl⟩ := Schema.Accepts.string (fits.proper.get? hv hx)
        (fits.accepts hfield hv hx) List.mem_cons_self
      exact ⟨s, rfl⟩

theorem fieldOr_eq (fits : Fits fields v) (name : String) (fallback : Value) :
    ∃ x, v.fieldOr name fallback = .ok x := by
  obtain ⟨es, hv⟩ := fits.mapping
  exact ⟨_, Value.fieldOr_eq hv name fallback⟩

/-- The members of a list, none of them where it is not there. -/
theorem members (fits : Fits fields v) (name : String) {keywords : List Keyword} {each : Schema}
    (hfield : fields.lookup name = some (.rules keywords)) (htype : Keyword.type [.array] ∈ keywords)
    (heach : Keyword.items each ∈ keywords) :
    ∃ items, membersOf v name = .ok items ∧ ∀ x ∈ items, each.Accepts x ∧ x.Proper := by
  rw [membersOf]
  rcases fits.field_cases name hfield with hnull | ⟨haccepts, proper⟩
  · rw [hnull]
    exact ⟨[], rfl, by simp⟩
  · obtain ⟨items, hitems⟩ := haccepts.list htype
    exact ⟨items, Value.members_orElse hitems,
      fun x hx => ⟨(haccepts.of_mem heach).item hitems hx, proper.item hitems hx⟩⟩

/-- A list that has to be there, with an item at least. -/
theorem members_ne_nil (fits : Fits fields v) (name : String) {keywords : List Keyword}
    (hfield : fields.lookup name = some (.rules keywords)) (htype : Keyword.type [.array] ∈ keywords)
    (hleast : Keyword.minItems 1 ∈ keywords) {names : List String}
    (h : (Keyword.required names).Accepts v) (hname : name ∈ names) {items : List Value}
    (hitems : membersOf v name = .ok items) : items ≠ [] := by
  obtain ⟨-, haccepts, -⟩ := fits.required name hfield h hname
  obtain ⟨own, hown⟩ := haccepts.list htype
  obtain rfl : own = items := Except.ok.inj ((Value.members_orElse hown).symm.trans hitems)
  exact List.ne_nil_of_length_pos ((haccepts.of_mem hleast).minItems hown)

theorem listed (fits : Fits fields v) (name : String) {keywords more : List Keyword}
    (hfield : fields.lookup name = some (.rules (.type [.array] :: keywords)))
    (heach : Keyword.items (.rules (.type [.string] :: more)) ∈ keywords) :
    ∃ names : List String, (field v name).texts = .ok names ∧
      membersOf v name = .ok (names.map .text) := by
  rw [membersOf]
  rcases fits.field_cases name hfield with hnull | ⟨haccepts, proper⟩
  · rw [hnull]
    exact ⟨[], rfl, rfl⟩
  · obtain ⟨names, hnames⟩ := haccepts.listed proper List.mem_cons_self
      (List.mem_cons_of_mem _ heach) List.mem_cons_self
    exact ⟨names, Value.texts_eq hnames, Value.members_orElse hnames⟩

/-- A list of texts, none of them where it is not there. -/
theorem texts (fits : Fits fields v) (name : String) {more : List Keyword}
    (hfield : fields.lookup name =
      some (.rules [.type [.array], .items (.rules (.type [.string] :: more))])) :
    ∃ names : List String, (field v name).texts = .ok names ∧
      membersOf v name = .ok (names.map .text) :=
  fits.listed name hfield List.mem_cons_self

theorem empty (fields : List (String × Schema)) : Fits fields (.mapping []) where
  mapping := ⟨[], rfl⟩
  proper := trivial
  accepts _ hv hx := by
    cases hv
    cases hx

/-- A mapping in a field, an empty one where it is not given. -/
theorem inner (fits : Fits fields v) (name : String) {others : List (String × Schema)}
    (hfield : fields.lookup name = some (Schema.object others)) :
    Fits others ((field v name).orElse (.mapping [])) := by
  rw [Value.orElse]
  split
  · rename_i hgiven
    rcases fits.field_cases name hfield with hnull | ⟨haccepts, proper⟩
    · rw [hnull] at hgiven
      cases hgiven
    · exact .of_object proper haccepts
  · exact .empty others

/-- The entries of a mapping in a field, none where it is not given. -/
theorem entries (fits : Fits fields v) (name : String) {others : Schema}
    (hfield : fields.lookup name = some (Schema.mappingTo others)) :
    ∃ es, ((field v name).orElse (.mapping [])).entries = .ok es ∧
      ∀ entry ∈ es, others.Accepts entry.2 ∧
        ∃ own, (field v name).opened = .mapping own ∧ entry ∈ own := by
  rw [Value.orElse]
  split
  · rename_i hgiven
    rcases fits.field_cases name hfield with hnull | ⟨haccepts, -⟩
    · rw [hnull] at hgiven
      cases hgiven
    · obtain ⟨own, hown⟩ := haccepts.mapping List.mem_cons_self
      refine ⟨own, by rw [Value.entries, hown], fun entry hentry => ⟨?_, own, hown, hentry⟩⟩
      exact (haccepts.of_mem (List.mem_cons_of_mem _ List.mem_cons_self)).others hown hentry
  · exact ⟨[], rfl, by simp⟩

end Fits

/-! ## Rulepacks -/

/-- What the reader of a rulepack takes from a document. -/
structure Rulepack.Reads (v : Value) (pack : Rulepack) : Prop where
  id : ∃ id, id ≠ "" ∧ field v "id" = .text id ∧ pack.id = .text id
  parents : membersOf v "extends" = .ok (pack.extends.map .text)

theorem Rulepack.exists_ofValue {v : Value} (proper : v.Proper)
    (h : ManifestSchema.rulepack.schema.Accepts v) :
    ∃ pack, Rulepack.ofValue v = .ok pack ∧ Reads v pack := by
  obtain ⟨fits, hrequired⟩ := Fits.of_objectWith proper h
  obtain ⟨id, hid, hfield, hread⟩ := fits.requiredText "id" rfl hrequired List.mem_cons_self
  obtain ⟨rules, hrules, -⟩ := fits.texts "rules" rfl
  obtain ⟨parents, hparents, hmembers⟩ := fits.texts "extends" rfl
  obtain ⟨version, hversion⟩ := fits.shownOr "version" rfl
  obtain ⟨tags, htags, -⟩ := fits.texts "tags" rfl
  refine ⟨{ id := .text id, rules, «extends» := parents, version, tags
            description := (field v "description").orElse (.text "") }, ?_,
    ⟨id, hid, hfield, rfl⟩, hmembers⟩
  simp only [Rulepack.ofValue, fits.field_eq]
  simp only [hread, hrules, hparents, hversion, htags, bind, Except.bind, Value.shown_text, pure, Except.pure]

/-! ## Agents -/

structure Agent.Reads (v : Value) (agent : Agent) : Prop where
  id : ∃ id, id ≠ "" ∧ field v "id" = .text id ∧ agent.id = .text id
  rulepacks : membersOf v "rulepacks" = .ok (agent.rulepacks.map .text)
  system : ∃ s, agent.prompt.system = .text s

theorem Agent.exists_ofValue {v : Value} (proper : v.Proper)
    (h : ManifestSchema.agent.schema.Accepts v) :
    ∃ agent, Agent.ofValue v = .ok agent ∧ Reads v agent := by
  obtain ⟨fits, hrequired⟩ := Fits.of_objectWith proper h
  obtain ⟨id, hid, hfield, hread⟩ := fits.requiredText "id" rfl hrequired List.mem_cons_self
  obtain ⟨version, hversion⟩ := fits.shownOr "version" rfl
  obtain ⟨rulepacks, hrulepacks, hmembers⟩ := fits.texts "rulepacks" rfl
  obtain ⟨constraints, hconstraints, -⟩ := fits.texts "constraints" rfl
  obtain ⟨capabilities, hcapabilities, -⟩ := fits.texts "capabilities" rfl
  obtain ⟨tools, htools, -⟩ := fits.texts "tools" rfl
  have hprompt := fits.inner "prompt" rfl
  have hsystem := hprompt.textOr "system" rfl ""
  have hdefaults := fits.inner "defaults" rfl
  obtain ⟨model, hmodel⟩ := hdefaults.optionalText "model" rfl
  have hagent : ∃ agent, Agent.ofValue v = .ok agent ∧ agent.id = .text id ∧
      agent.rulepacks = rulepacks ∧ ∃ s, agent.prompt.system = .text s := by
    simp only [Agent.ofValue, fits.field_eq]
    simp only [hread, hversion, hrulepacks, hconstraints, hcapabilities, htools, hprompt.field_eq,
      hdefaults.field_eq, hmodel, bind, Except.bind, Value.shown_text, pure, Except.pure]
    exact ⟨_, rfl, rfl, rfl, hsystem⟩
  obtain ⟨agent, hagent, hown, rfl, hsystem⟩ := hagent
  exact ⟨agent, hagent, ⟨id, hid, hfield, hown⟩, hmembers, hsystem⟩

/-! ## Prompts -/

theorem Value.shown_of_isShowable {v : Value} (h : v.isShowable = true) :
    v.shown = .ok v.display := by
  rw [shown, if_pos h]

theorem Value.optionalText_of_isShowable {v : Value} (h : v.isShowable = true) :
    ∃ found, v.optionalText = .ok found := by
  cases v with
  | null => exact ⟨_, rfl⟩
  | text s => exact ⟨_, rfl⟩
  | _ => exact ⟨_, by rw [optionalText, shown_of_isShowable h] <;> first | rfl | nofun⟩

theorem PromptVariable.exists_ofValue {v : Value} {fields : List (String × Schema)}
    {names : List String} (proper : v.Proper) (h : (Schema.objectWith names fields).Accepts v)
    (hname : fields.lookup "name" = some Schema.filledText) (hlisted : "name" ∈ names)
    (hdefault : (field v "default").isShowable = true) :
    ∃ found, PromptVariable.ofValue v = .ok found := by
  obtain ⟨fits, hrequired⟩ := Fits.of_objectWith proper h
  obtain ⟨name, -, -, hread⟩ := fits.requiredText "name" hname hrequired hlisted
  obtain ⟨required, hneeded⟩ := fits.fieldOr_eq "required" (.bool false)
  obtain ⟨fallback, hfallback⟩ := Value.optionalText_of_isShowable hdefault
  simp only [PromptVariable.ofValue, fits.field_eq]
  simp only [hread, hneeded, hfallback, bind, Except.bind, pure, Except.pure]
  exact ⟨_, rfl⟩

/-- The numbers that are turned into texts are short enough. -/
def Prompt.Showable (v : Value) : Prop :=
  ∀ items, membersOf v "variables" = .ok items →
    ∀ x ∈ items, (field x "default").isShowable = true

structure Prompt.Reads (v : Value) (prompt : Prompt) : Prop where
  id : ∃ id, id ≠ "" ∧ field v "id" = .text id ∧ prompt.id = .text id

theorem Prompt.exists_ofValue {v : Value} (proper : v.Proper)
    (h : ManifestSchema.prompt.schema.Accepts v) (showable : Showable v) (sourcePath : String) :
    ∃ prompt, Prompt.ofValue v sourcePath = .ok prompt ∧ Reads v prompt := by
  obtain ⟨fits, hrequired⟩ := Fits.of_objectWith proper h
  obtain ⟨id, hid, hfield, hread⟩ := fits.requiredText "id" rfl hrequired List.mem_cons_self
  obtain ⟨items, hitems, hall⟩ := fits.members "variables" rfl List.mem_cons_self
    (List.mem_cons_of_mem _ List.mem_cons_self)
  have hvariable : ∀ x ∈ items, ∃ found, PromptVariable.ofValue x = .ok found ∧ True := by
    intro x hx
    obtain ⟨haccepts, hproper⟩ := hall x hx
    obtain ⟨found, hfound⟩ := PromptVariable.exists_ofValue hproper haccepts rfl
      List.mem_cons_self (showable items hitems x hx)
    exact ⟨found, hfound, trivial⟩
  obtain ⟨declared, hdeclared, -⟩ := Attempt.exists_mapM hvariable
  obtain ⟨version, hversion⟩ := fits.shownOr "version" rfl
  obtain ⟨model, hmodel⟩ := fits.optionalText "model" rfl
  obtain ⟨tags, htags, -⟩ := fits.texts "tags" rfl
  have hprompt : ∃ prompt, Prompt.ofValue v sourcePath = .ok prompt ∧ prompt.id = .text id := by
    rw [membersOf] at hitems
    simp only [Prompt.ofValue, fits.field_eq]
    simp only [hread, hitems, hdeclared, hversion, hmodel, htags, bind, Except.bind,
      Value.shown_text, pure, Except.pure]
    exact ⟨_, rfl, rfl⟩
  obtain ⟨prompt, hprompt, hown⟩ := hprompt
  exact ⟨prompt, hprompt, ⟨id, hid, hfield, hown⟩⟩

/-! ## Recipes -/

theorem choose_of_lookup {α : Type} {kind : String} {choices : List (String × α)} {s : String}
    (h : (choices.lookup s).isSome) : ∃ choice, choose kind choices (.text s) = .ok choice := by
  obtain ⟨choice, hchoice⟩ := Option.isSome_iff_exists.1 h
  exact ⟨choice, by simp only [choose, hchoice]⟩

/-- A field with one of some choices, or a usual one where it is not there. -/
theorem Fits.choice {fields : List (String × Schema)} {v : Value} (fits : Fits fields v)
    (name : String) {texts : List String}
    (hfield : fields.lookup name = some (.rules [.choices texts])) {α : Type} {kind : String}
    {choices : List (String × α)} (htexts : ∀ s ∈ texts, (choices.lookup s).isSome)
    {usual : String} (husual : usual ∈ texts) :
    ∃ x choice, v.fieldOr name (.text usual) = .ok x ∧ choose kind choices x = .ok choice := by
  obtain ⟨es, hv⟩ := fits.mapping
  rw [Value.fieldOr_eq hv]
  cases hx : Entries.get? es name with
  | none =>
      obtain ⟨choice, hchoice⟩ := choose_of_lookup (htexts usual husual)
      exact ⟨_, choice, rfl, hchoice⟩
  | some x =>
      obtain ⟨s, hs, rfl⟩ := ((fits.accepts hfield hv hx).of_mem List.mem_cons_self).choice
      obtain ⟨choice, hchoice⟩ := choose_of_lookup (htexts s hs)
      exact ⟨_, choice, rfl, hchoice⟩

theorem Check.exists_ofValue? {v : Value}
    (h : v = .null ∨ ManifestSchema.check.Accepts v ∧ v.Proper) :
    ∃ found, Check.ofValue? v = .ok found := by
  rcases h with rfl | ⟨haccepts, proper⟩
  · exact ⟨none, rfl⟩
  · obtain ⟨fits, -⟩ := Fits.of_objectWith proper haccepts
    obtain ⟨x, inspection, hx, hinspection⟩ : ∃ x inspection,
        v.fieldOr "type" (.text Inspection.contains.name) = .ok x ∧
          Inspection.ofValue x = .ok inspection :=
      fits.choice "type" rfl (by decide) (by decide)
    obtain ⟨value, hvalue⟩ := fits.textOrEmpty "value" rfl
    obtain ⟨pattern, hpattern⟩ := fits.textOrEmpty "pattern" rfl
    obtain ⟨cmd, hcmd⟩ := fits.textOrEmpty "cmd" rfl
    obtain ⟨prompt, hprompt⟩ := fits.textOrEmpty "prompt" rfl
    rw [Check.ofValue?]
    split
    · exact ⟨none, rfl⟩
    · simp only [fits.field_eq, hx, hinspection, hvalue, hpattern, hcmd, hprompt, bind,
        Except.bind, pure, Except.pure]
      exact ⟨_, rfl⟩

theorem Condition.exists_ofValue? {v : Value}
    (h : v = .null ∨ ManifestSchema.condition.Accepts v ∧ v.Proper) :
    ∃ found, Condition.ofValue? v = .ok found := by
  rcases h with rfl | ⟨haccepts, proper⟩
  · exact ⟨none, rfl⟩
  · obtain ⟨fits, -⟩ := Fits.of_objectWith proper haccepts
    obtain ⟨check, hcheck⟩ := Check.exists_ofValue? (fits.field_cases "check" rfl)
    obtain ⟨x, occasion, hx, hoccasion⟩ : ∃ x occasion,
        v.fieldOr "type" (.text Occasion.always.name) = .ok x ∧
          Occasion.ofValue x = .ok occasion :=
      fits.choice "type" rfl (by decide) (by decide)
    rw [Condition.ofValue?]
    split
    · exact ⟨none, rfl⟩
    · simp only [fits.field_eq, hcheck, hx, hoccasion, bind, Except.bind, pure, Except.pure]
      exact ⟨_, rfl⟩

/-- What the reader of a step takes from an item of the list of steps. -/
structure Step.Reads (v : Value) (step : Step) : Prop where
  mapping : v.isMapping = true
  id : ∃ id, field v "id" = .text id ∧ step.id = .text id
  agent : ∃ agent, agent ≠ "" ∧ field v "agent" = .text agent ∧ step.agent = .text agent
  task : ∃ s, step.task = .text s

theorem Value.isMapping_of_opened {v : Value} {es : Entries} (h : v.opened = .mapping es) :
    v.isMapping = true := by
  cases v with
  | mapping entries => rfl
  | cycle name content =>
      rw [opened] at h
      cases content with
      | mapping entries => rfl
      | again other | cycle other inner =>
          rw [putIn] at h
          split at h <;> cases h
      | _ => cases h
  | _ => cases h

theorem Step.exists_ofValue {v : Value} (proper : v.Proper)
    (h : ManifestSchema.step.Accepts v) : ∃ step, Step.ofValue v = .ok step ∧ Reads v step := by
  obtain ⟨fits, hrequired⟩ := Fits.of_objectWith proper h
  obtain ⟨es, hv⟩ := fits.mapping
  obtain ⟨id, -, hid, hread⟩ := fits.requiredText "id" rfl hrequired List.mem_cons_self
  obtain ⟨agent, hagent, hfield, hreadAgent⟩ := fits.requiredText "agent" rfl hrequired
    (List.mem_cons_of_mem _ List.mem_cons_self)
  obtain ⟨model, hmodel⟩ := fits.optionalText "model" rfl
  obtain ⟨document, hdocument⟩ := fits.optionalText "outputDocument" rfl
  obtain ⟨documents, hdocuments, -⟩ := fits.texts "includeDocuments" rfl
  obtain ⟨condition, hcondition⟩ := Condition.exists_ofValue? (fits.field_cases "condition" rfl)
  have hstep : ∃ step, Step.ofValue v = .ok step ∧ step.id = .text id ∧
      step.agent = .text agent ∧ ∃ s, step.task = .text s := by
    simp only [Step.ofValue, fits.field_eq]
    simp only [hread, hreadAgent, hmodel, hdocument, hdocuments, hcondition, bind, Except.bind,
      pure, Except.pure]
    exact ⟨_, rfl, rfl, rfl, fits.textOr "task" rfl ""⟩
  obtain ⟨step, hstep, hown, hactor, htask⟩ := hstep
  exact ⟨step, hstep, Value.isMapping_of_opened hv, ⟨id, hid, hown⟩,
    ⟨agent, hagent, hfield, hactor⟩, htask⟩

theorem LoopCondition.exists_ofValue? {v : Value} {names : List String}
    {fields : List (String × Schema)}
    (h : v = .null ∨ (Schema.objectWith names fields).Accepts v ∧ v.Proper)
    (htype : fields.lookup "type" = some (.rules [.choices ["command", "user-decision", "max-iterations"]]))
    (hcmd : fields.lookup "cmd" = some Schema.text)
    (hprompt : fields.lookup "prompt" = some Schema.text) :
    ∃ found, LoopCondition.ofValue? v = .ok found := by
  rcases h with rfl | ⟨haccepts, proper⟩
  · exact ⟨none, rfl⟩
  · obtain ⟨fits, -⟩ := Fits.of_objectWith proper haccepts
    obtain ⟨x, exit, hx, hexit⟩ : ∃ x exit,
        v.fieldOr "type" (.text LoopExit.maxIterations.name) = .ok x ∧
          LoopExit.ofValue x = .ok exit :=
      fits.choice "type" htype (by decide) (by decide)
    obtain ⟨cmd, hcmd⟩ := fits.textOrEmpty "cmd" hcmd
    obtain ⟨prompt, hprompt⟩ := fits.textOrEmpty "prompt" hprompt
    rw [LoopCondition.ofValue?]
    split
    · exact ⟨none, rfl⟩
    · simp only [fits.field_eq, hx, hexit, hcmd, hprompt, bind, Except.bind, pure, Except.pure]
      exact ⟨_, rfl⟩

/-- A number that counts as whole can be read as one. -/
theorem Value.whole_of_accepts {v : Value} (proper : v.Proper) {keywords : List Keyword}
    (h : (Schema.rules (.type [.integer] :: keywords)).Accepts v) : ∃ n, v.whole = .ok n := by
  have hholds := h.typed List.mem_cons_self
  cases hv : v.opened with
  | int n =>
      have hopened := proper.eq_opened (by rw [hv]; rfl)
      exact ⟨n, by rw [← hopened, hv]; rfl⟩
  | float x =>
      have hopened := proper.eq_opened (by rw [hv]; rfl)
      rw [hv] at hholds
      rw [← hopened, hv]
      cases x with
      | finite negative mantissa exponent => exact ⟨_, rfl⟩
      | _ => cases hholds
  | _ =>
      rw [hv] at hholds
      cases hholds

/-- What the reader of a loop takes from the loop of a recipe. -/
structure Loop.Reads (v : Value) (loop : Loop) : Prop where
  mapping : v.isMapping = true
  steps : membersOf v "steps" = .ok (loop.steps.map .text)

theorem Loop.exists_ofValue? {v : Value} (h : v = .null ∨ ManifestSchema.loop.Accepts v ∧ v.Proper) :
    ∃ found, Loop.ofValue? v = .ok found ∧ ∀ loop ∈ found, Reads v loop := by
  rcases h with rfl | ⟨haccepts, proper⟩
  · exact ⟨none, rfl, nofun⟩
  · obtain ⟨fits, -⟩ := Fits.of_objectWith proper haccepts
    obtain ⟨es, hv⟩ := fits.mapping
    obtain ⟨condition, hcondition⟩ := LoopCondition.exists_ofValue?
      (fits.field_cases "condition" rfl) rfl rfl rfl
    obtain ⟨steps, hsteps, hmembers⟩ := fits.listed "steps" rfl
      (List.mem_cons_of_mem _ List.mem_cons_self)
    obtain ⟨limit, hlimit⟩ : ∃ limit,
        ((field v "maxIterations").orElse (.int defaultIterations)).whole = .ok limit := by
      rw [Value.orElse]
      split
      · rename_i hgiven
        rcases fits.field_cases "maxIterations" rfl with hnull | ⟨haccepts, proper⟩
        · rw [hnull] at hgiven
          cases hgiven
        · exact Value.whole_of_accepts proper haccepts
      · exact ⟨_, rfl⟩
    rw [Loop.ofValue?]
    split
    · exact ⟨none, rfl, nofun⟩
    · simp only [fits.field_eq, hcondition, hsteps, hlimit, bind, Except.bind, pure, Except.pure]
      refine ⟨_, rfl, ?_⟩
      rintro loop ⟨rfl⟩
      exact ⟨Value.isMapping_of_opened hv, hmembers⟩

theorem Value.exists_textPairs {v : Value}
    (h : ∀ es, v.opened = .mapping es →
      ∀ entry ∈ es, entry.1.isShowable = true ∧ entry.2.isShowable = true)
    (hmapping : v = .null ∨ ∃ es, v.opened = .mapping es) :
    ∃ found, v.textPairs = .ok found := by
  rcases hmapping with rfl | ⟨es, hv⟩
  · exact ⟨[], rfl⟩
  · have hentry : ∀ entry ∈ es, ∃ found, textPair entry = .ok found ∧ True := by
      intro entry hmem
      obtain ⟨hkey, hvalue⟩ := h es hv entry hmem
      rw [textPair, shown_of_isShowable hkey, shown_of_isShowable hvalue]
      cases entry.2.isNull <;> exact ⟨_, rfl, trivial⟩
    obtain ⟨found, hfound, -⟩ := Attempt.exists_mapM hentry
    rw [textPairs]
    split
    · exact ⟨[], rfl⟩
    · rw [entries, hv]
      exact ⟨found, hfound⟩

/-- The numbers that are turned into texts are short enough. -/
structure Recipe.Showable (v : Value) : Prop where
  defaults : ∀ es, (field v "variables").opened = .mapping es →
    ∀ entry ∈ es, entry.1.isShowable = true ∧ entry.2.isShowable = true
  options : ∀ es, (field v "toolOptions").opened = .mapping es →
    ∀ entry ∈ es, entry.1.isShowable = true

structure Recipe.Reads (v : Value) (recipe : Recipe) : Prop where
  id : ∃ id, id ≠ "" ∧ field v "id" = .text id ∧ recipe.id = .text id
  steps : ∃ members, membersOf v "steps" = .ok members ∧
    List.Forall₂ Step.Reads members recipe.steps
  filled : recipe.steps ≠ []
  description : ∃ s, recipe.description = .text s
  loop : ∀ loop ∈ recipe.loop, Loop.Reads (field v "loop") loop

theorem Recipe.exists_toolEntry {entry : Value × Value} (hkey : entry.1.isShowable = true)
    (h : ∃ es, entry.2.opened = .mapping es) : ∃ found, toolEntry entry = .ok found := by
  obtain ⟨es, hv⟩ := h
  have hoptions : ∃ options, (entry.2.orElse (.mapping [])).asMapping = .ok options := by
    rw [Value.orElse]
    split
    · exact ⟨es, by rw [Value.asMapping, hv]⟩
    · exact ⟨[], rfl⟩
  obtain ⟨options, hoptions⟩ := hoptions
  rw [toolEntry, Value.shown_of_isShowable hkey, hoptions]
  exact ⟨_, rfl⟩

theorem Recipe.exists_ofValue {v : Value} (proper : v.Proper)
    (h : ManifestSchema.recipe.schema.Accepts v) (showable : Showable v) :
    ∃ recipe, Recipe.ofValue v = .ok recipe ∧ Reads v recipe := by
  obtain ⟨fits, hrequired⟩ := Fits.of_objectWith proper h
  obtain ⟨id, hid, hfield, hread⟩ := fits.requiredText "id" rfl hrequired List.mem_cons_self
  obtain ⟨es, hes, hentries⟩ := fits.entries "toolOptions" rfl
  have hoption : ∀ entry ∈ es, ∃ found, toolEntry entry = .ok found ∧ True := by
    intro entry hentry
    obtain ⟨haccepts, own, hown, hmem⟩ := hentries entry hentry
    obtain ⟨found, hfound⟩ := exists_toolEntry (showable.options own hown entry hmem)
      (haccepts.mapping List.mem_cons_self)
    exact ⟨found, hfound, trivial⟩
  obtain ⟨options, hoptions, -⟩ := Attempt.exists_mapM hoption
  obtain ⟨members, hmembers, hall⟩ := fits.members "steps" rfl List.mem_cons_self
    (List.mem_cons_of_mem _ (List.mem_cons_of_mem _ List.mem_cons_self))
  have hstep : ∀ x ∈ members, ∃ step, Step.ofValue x = .ok step ∧ Step.Reads x step :=
    fun x hx => Step.exists_ofValue (hall x hx).2 (hall x hx).1.of_reference
  obtain ⟨steps, hsteps, hreads⟩ := Attempt.exists_mapM hstep
  have hfilled : steps ≠ [] := by
    rintro rfl
    cases hreads
    exact fits.members_ne_nil "steps" rfl List.mem_cons_self
      (List.mem_cons_of_mem _ List.mem_cons_self) hrequired
      (List.mem_cons_of_mem _ List.mem_cons_self) hmembers rfl
  obtain ⟨version, hversion⟩ := fits.shownOr "version" rfl
  obtain ⟨tags, htags, -⟩ := fits.texts "tags" rfl
  obtain ⟨tools, htools, -⟩ := fits.texts "tools" rfl
  obtain ⟨defaults, hdefaults⟩ : ∃ found, (field v "variables").textPairs = .ok found := by
    refine Value.exists_textPairs showable.defaults ?_
    rcases fits.field_cases "variables" rfl with hnull | ⟨haccepts, -⟩
    · exact .inl hnull
    · exact .inr (haccepts.mapping List.mem_cons_self)
  obtain ⟨model, hmodel⟩ := fits.optionalText "model" rfl
  obtain ⟨loop, hloop, hlooped⟩ := Loop.exists_ofValue? (fits.field_cases "loop" rfl)
  obtain ⟨x, conversation, hx, hconversation⟩ : ∃ x conversation,
      v.fieldOr "conversationStrategy" (.text Conversation.separate.name) = .ok x ∧
        Conversation.ofValue x = .ok conversation :=
    fits.choice "conversationStrategy" rfl (by decide) (by decide)
  have hrecipe : ∃ recipe, Recipe.ofValue v = .ok recipe ∧ recipe.id = .text id ∧
      recipe.steps = steps ∧ recipe.loop = loop ∧ ∃ s, recipe.description = .text s := by
    rw [membersOf] at hmembers
    simp only [Recipe.ofValue, fits.field_eq]
    simp only [hread, hes, hoptions, hmembers, hsteps, hversion, htags, htools, hdefaults, hmodel,
      hloop, hx, hconversation, bind, Except.bind, Value.shown_text, pure, Except.pure]
    exact ⟨_, rfl, rfl, rfl, rfl, fits.textOr "description" rfl ""⟩
  obtain ⟨recipe, hrecipe, hown, rfl, rfl, hdescription⟩ := hrecipe
  exact ⟨recipe, hrecipe, ⟨id, hid, hfield, hown⟩, ⟨members, hmembers, hreads⟩, hfilled,
    hdescription, hlooped⟩

end Playbook
