import Mathlib.Data.List.Induction
import Playbook.Proofs.Template.Filling
import Playbook.Proofs.Value.Entries
import Playbook.Proofs.Work

/-!
# Filled prompts

What the caller gives for a name goes over the defaults, and of several
defaults for one name the last one stays. A required variable is missing if it
has no default of its own and what there is for its name does not count; where
none is missing, no placeholder of a required variable stays open.
-/

namespace Playbook.Prompt

/-- The value that a caller gives for a name. -/
def given? (values : Entries) (name : String) : Option Value :=
  (Entries.get? values name).filter (!·.isNull)

/-- The default for a name, the last one if there are several. -/
def lastDefault? (declared : List PromptVariable) (name : String) : Option String :=
  declared.reverse.findSome? fun v => if v.name.same (.text name) then v.default else none

variable (prompt : Prompt) (values : Entries)

/-- What a prompt is filled with for a name. -/
def merged? (name : String) : Option Value :=
  given? values name <|> (lastDefault? prompt.declared name).map .text

/-- A variable that must have a value, and there is none that counts. -/
def Lacks (v : PromptVariable) (name : String) : Prop :=
  v.required ∧ v.default = none ∧ ∀ x ∈ prompt.merged? values name, x.isGiven = false

instance (v : PromptVariable) (name : String) : Decidable (prompt.Lacks values v name) :=
  inferInstanceAs (Decidable (_ ∧ _))

def missingName? (v : PromptVariable) : Option String :=
  match v.name with
  | .text name => if prompt.Lacks values v name then some name else none
  | _ => none

/-- The names of what is missing, as they are declared. -/
def missingNames : List String := prompt.declared.filterMap (missingName? prompt values)

variable {prompt values}

/-! ## Merged values -/

def withDefault (entries : Entries) (v : PromptVariable) : Entries :=
  match v.default with
  | none => entries
  | some text => Entries.insert entries v.name (.text text)

theorem get?_withDefault (entries : Entries) (v : PromptVariable) (name : String) :
    Entries.get? (withDefault entries v) name =
      ((if v.name.same (.text name) then v.default else none).map Value.text <|>
        Entries.get? entries name) := by
  rw [withDefault]
  cases hdefault : v.default with
  | none => simp
  | some text =>
      rw [Entries.get?_insert]
      split <;> rfl

theorem lastDefault?_concat (declared : List PromptVariable) (v : PromptVariable) (name : String) :
    lastDefault? (declared ++ [v]) name =
      ((if v.name.same (.text name) then v.default else none) <|> lastDefault? declared name) := by
  rw [lastDefault?, List.reverse_append, List.reverse_singleton, List.singleton_append,
    List.findSome?_cons]
  split <;> simp_all [lastDefault?]

theorem get?_foldl_withDefault (declared : List PromptVariable) (name : String) :
    Entries.get? (declared.foldl withDefault []) name = (lastDefault? declared name).map .text := by
  induction declared using List.reverseRecOn with
  | nil => rfl
  | append_singleton declared v ih =>
      rw [List.foldl_append, List.foldl_cons, List.foldl_nil, get?_withDefault, ih,
        lastDefault?_concat]
      cases (if v.name.same (.text name) then v.default else none) <;> rfl

/-- Names of variables are texts. -/
def NamedByTexts (prompt : Prompt) : Prop := ∀ v ∈ prompt.declared, ∃ name, v.name = .text name

theorem NamedByTexts.defaultEntries (hnames : prompt.NamedByTexts) :
    prompt.defaultEntries = .ok (prompt.declared.foldl withDefault []) := by
  refine Attempt.foldlM_eq_ok (fun entries v hv => ?_) []
  obtain ⟨name, hname⟩ := hnames v hv
  rw [withDefault, hname]
  cases v.default <;> rfl

theorem NamedByTexts.mergedValues (hnames : prompt.NamedByTexts)
    (distinct : Entries.Distinct values) :
    ∃ merged, prompt.mergedValues values = .ok merged ∧
      ∀ name, Entries.get? merged name = merged? prompt values name := by
  refine ⟨_, by rw [Prompt.mergedValues, hnames.defaultEntries]; rfl, fun name => ?_⟩
  rw [Entries.get?_foldl_insert (distinct.filter _), Entries.get?_filter distinct (!·.isNull),
    get?_foldl_withDefault]
  rfl

/-! ## Missing variables -/

variable {merged : Entries}

theorem isMissing_eq (hget : ∀ name, Entries.get? merged name = prompt.merged? values name)
    {v : PromptVariable} {name : String} (hname : v.name = .text name) :
    isMissing merged v = .ok (decide (prompt.Lacks values v name)) := by
  have hfind : Entries.find? merged (.text name) = prompt.merged? values name := hget name
  rw [isMissing, hname, hfind]
  cases hrequired : v.required with
  | false => simp [Lacks, hrequired]
  | true =>
      cases hmerged : prompt.merged? values name <;> cases hdefault : v.default <;>
        simp [Lacks, Value.canBeKey, hrequired, hmerged, hdefault]

theorem NamedByTexts.missingVariables (hnames : prompt.NamedByTexts)
    (hget : ∀ name, Entries.get? merged name = prompt.merged? values name) :
    prompt.missingVariables merged = .ok ((prompt.missingNames values).map .text) := by
  have hmissing : ∀ v ∈ prompt.declared,
      isMissing merged v = .ok (missingName? prompt values v).isSome := by
    intro v hv
    obtain ⟨name, hname⟩ := hnames v hv
    rw [isMissing_eq hget hname, missingName?, hname]
    by_cases hlacks : prompt.Lacks values v name <;> simp [hlacks]
  have hname : ∀ v ∈ prompt.declared, ∀ name ∈ missingName? prompt values v,
      v.name = .text name := by
    intro v _ name hname
    unfold missingName? at hname
    split at hname
    · split at hname
      · cases hname
        assumption
      · cases hname
    · cases hname
  rw [Prompt.missingVariables, Attempt.filterM_eq_ok hmissing, missingNames, List.map_filterMap]
  refine congrArg Except.ok ?_
  rw [← List.filterMap_eq_filter, List.map_filterMap]
  refine List.filterMap_congr fun v hv => ?_
  cases hmissed : missingName? prompt values v with
  | none => simp [hmissed]
  | some name => simp [hmissed, hname v hv name hmissed]

/-! ## Filling -/

theorem textNames_map_text (names : List String) : textNames (names.map .text) = .ok names := by
  induction names with
  | nil => rfl
  | cons name names ih =>
      rw [textNames] at ih ⊢
      rw [List.map_cons, List.mapM_cons, ih]
      rfl

theorem fill_eq {content : String} (hcontent : prompt.content = .text content)
    (hmerged : prompt.mergedValues values = .ok merged) {names : List String}
    (hmissing : prompt.missingVariables merged = .ok (names.map .text)) (strict : Bool) :
    prompt.fill values strict =
      if strict ∧ names ≠ [] then
        prompt.id.shown >>= fun id => .error (.missingVariables id names)
      else Template.filled content merged := by
  rw [fill, Attempt.bind_eq_of_ok hmerged, hcontent]
  cases strict with
  | false => rfl
  | true =>
      rw [if_pos rfl, Attempt.bind_eq_of_ok hmissing]
      cases names with
      | nil => rfl
      | cons name names =>
          rw [if_pos (by simp), if_pos (by simp), textNames_map_text]
          cases prompt.id.shown <;> rfl

/-- What a prompt is filled with is never `null`. -/
theorem isNull_of_merged? {name : String} {x : Value}
    (h : prompt.merged? values name = some x) : x.isNull = false := by
  rw [merged?] at h
  cases hgiven : given? values name with
  | some y =>
      rw [hgiven] at h
      cases h
      simpa using (Option.filter_eq_some_iff.1 hgiven).2
  | none =>
      rw [hgiven] at h
      obtain ⟨text, -, rfl⟩ := Option.map_eq_some_iff.1 h
      rfl

theorem exists_merged?_of_required (hmissing : prompt.missingNames values = []) {v : PromptVariable}
    (hv : v ∈ prompt.declared) (hrequired : v.required) {name : String}
    (hname : v.name = .text name) : ∃ x, prompt.merged? values name = some x := by
  by_contra hnone
  have hmerged : prompt.merged? values name = none := by
    simpa [Option.eq_none_iff_forall_ne_some] using hnone
  cases hdefault : v.default with
  | none =>
      have hlacks : prompt.Lacks values v name := ⟨hrequired, hdefault, by simp [hmerged]⟩
      have hnot := List.filterMap_eq_nil_iff.1 hmissing v hv
      rw [missingName?, hname] at hnot
      simp [hlacks] at hnot
  | some text =>
      have hlast : lastDefault? prompt.declared name = none := by
        rw [merged?] at hmerged
        cases hgiven : given? values name <;> simp_all
      rw [lastDefault?, List.findSome?_eq_none_iff] at hlast
      simpa [hname, hdefault] using hlast v (List.mem_reverse.2 hv)

/-- A number without a text that is among the merged values is one of the caller's. -/
theorem exists_given_of_merged? {name : String} {x : Value}
    (h : prompt.merged? values name = some x) (hlong : x.isShowable = false) :
    ∃ key, (key, x) ∈ values := by
  rw [merged?] at h
  cases hgiven : given? values name with
  | some y =>
      rw [hgiven] at h
      cases h
      exact Value.mem_of_get? (Option.filter_eq_some_iff.1 hgiven).1
  | none =>
      rw [hgiven] at h
      obtain ⟨text, -, rfl⟩ := Option.map_eq_some_iff.1 h
      cases hlong

/-- A prompt that requires a variable twice, and one with a default. -/
def repeatedPrompt : Prompt :=
  { (default : Prompt) with
    id := .text "p"
    content := .text "\x7b\x7bname\x7d\x7d"
    declared := [⟨.text "name", true, .null, none⟩, ⟨.text "file", true, .null, some "a"⟩,
      ⟨.text "name", true, .null, none⟩] }

end Playbook.Prompt
