import Playbook.Proofs.Schema
import Playbook.Proofs.Value.Short

/-!
# Where violations come from

A violation is of a value somewhere in the document, so a short document has
messages for all of its violations. Only an exclusion can go without an error,
and of the manifests only projects have exclusions.
-/

namespace Playbook

namespace Schema

variable {v : Value} {path : List Value} {violation : Violation}

/-! ## Parts of a schema -/

theorem of_mem_expect {holds : Bool} {subject : Option Value} {text : String}
    (h : violation ∈ expect holds path subject text) :
    violation = ⟨path, subject, text, false⟩ := by
  cases holds with
  | true => cases h
  | false => exact List.mem_singleton.1 h

theorem of_mem_ruleViolations {keywords : List Keyword}
    (h : violation ∈ ruleViolations v path keywords) :
    ∃ keyword ∈ keywords, violation ∈ keywordViolations v path keyword := by
  induction keywords with
  | nil => cases h
  | cons keyword keywords ih =>
      rw [ruleViolations, List.mem_append] at h
      rcases h with h | h
      · exact ⟨keyword, List.mem_cons_self, h⟩
      · obtain ⟨other, hother, h⟩ := ih h
        exact ⟨other, List.mem_cons_of_mem _ hother, h⟩

theorem of_mem_fieldViolations {es : Entries} {fields : List (String × Schema)}
    (h : violation ∈ fieldViolations es path fields) :
    ∃ field ∈ fields, ∃ x, Entries.get? es field.1 = some x ∧
      violation ∈ violations x (path ++ [.text field.1]) field.2 := by
  induction fields with
  | nil => cases h
  | cons field fields ih =>
      obtain ⟨name, schema⟩ := field
      rw [fieldViolations, List.mem_append] at h
      rcases h with h | h
      · cases hx : Entries.get? es name with
        | none =>
            rw [hx] at h
            cases h
        | some x =>
            rw [hx] at h
            exact ⟨(name, schema), List.mem_cons_self, x, hx, h⟩
      · obtain ⟨other, hother, h⟩ := ih h
        exact ⟨other, List.mem_cons_of_mem _ hother, h⟩

theorem of_mem_allViolations {schemas : List Schema}
    (h : violation ∈ allViolations v path schemas) :
    ∃ schema ∈ schemas, violation ∈ violations v path schema := by
  induction schemas with
  | nil => cases h
  | cons schema schemas ih =>
      rw [allViolations, List.mem_append] at h
      rcases h with h | h
      · exact ⟨schema, List.mem_cons_self, h⟩
      · obtain ⟨other, hother, h⟩ := ih h
        exact ⟨other, List.mem_cons_of_mem _ hother, h⟩

end Schema

/-! ## Messages -/

/-- A violation that has a message, and a text for its place. -/
structure Violation.Short (violation : Violation) : Prop where
  path : ∀ step ∈ violation.path, step.Short
  subject : ∀ x ∈ violation.subject, x.Short

namespace Schema

variable {v : Value} {path : List Value}

theorem short_expect {subject : Option Value} (hpath : ∀ step ∈ path, step.Short)
    (hsubject : ∀ x ∈ subject, x.Short) (holds : Bool) (text : String) :
    ∀ violation ∈ expect holds path subject text, violation.Short := by
  intro violation h
  obtain rfl := of_mem_expect h
  exact ⟨hpath, hsubject⟩

theorem short_concat (hpath : ∀ step ∈ path, step.Short) {step : Value} (hstep : step.Short) :
    ∀ other ∈ path ++ [step], other.Short := by
  intro other h
  rcases List.mem_append.1 h with h | h
  · exact hpath other h
  · exact List.mem_singleton.1 h ▸ hstep

theorem short_keyStep (hpath : ∀ step ∈ path, step.Short) {key : Value} (hkey : key.Short) :
    ∀ other ∈ path ++ keyStep key, other.Short := by
  rw [keyStep]
  split
  · simpa using hpath
  · exact short_concat hpath hkey

theorem short_index {items : List Value} (h : items.length ≤ Value.digitBound)
    {item : Value × Nat} (hitem : item ∈ items.zipIdx) : (Value.int item.2).Short := by
  have hlt : item.2 < items.length := by
    have := List.snd_lt_of_mem_zipIdx hitem
    omega
  rw [Value.Short, Value.isShowable, Int.natAbs_natCast]
  exact decide_eq_true (Nat.lt_of_lt_of_le hlt h)

mutual

/-- What a short document does against a schema can be told. -/
theorem short_violations {v : Value} {path : List Value} (hv : v.Short)
    (hpath : ∀ step ∈ path, step.Short) :
    ∀ schema : Schema, ∀ violation ∈ violations v path schema, violation.Short
  | .rules keywords => by
      rw [violations]
      exact short_ruleViolations hv hpath keywords
  | .reference _ target => by
      rw [violations]
      exact short_violations hv hpath target

theorem short_ruleViolations {v : Value} {path : List Value} (hv : v.Short)
    (hpath : ∀ step ∈ path, step.Short) :
    ∀ keywords : List Keyword, ∀ violation ∈ ruleViolations v path keywords, violation.Short
  | [] => by simp [ruleViolations]
  | keyword :: keywords => by
      intro violation h
      rw [ruleViolations, List.mem_append] at h
      rcases h with h | h
      · exact short_keywordViolations hv hpath keyword violation h
      · exact short_ruleViolations hv hpath keywords violation h

theorem short_keywordViolations {v : Value} {path : List Value} (hv : v.Short)
    (hpath : ∀ step ∈ path, step.Short) :
    ∀ keyword : Keyword, ∀ violation ∈ keywordViolations v path keyword, violation.Short
  | .type kinds => by
      rw [keywordViolations]
      exact short_expect hpath (by simpa using hv) _ _
  | .required names => by
      intro violation h
      rw [keywordViolations, requiredViolations] at h
      split at h
      · obtain ⟨name, -, h⟩ := List.mem_flatMap.1 h
        exact short_expect hpath (by simp) _ _ violation h
      · cases h
  | .properties fields => by
      intro violation h
      rw [keywordViolations] at h
      split at h
      · rename_i es hes
        exact short_fieldViolations hv hes hpath fields violation h
      · cases h
  | .additional others => by
      intro violation h
      rw [keywordViolations] at h
      split at h
      · rename_i es hes
        obtain ⟨entry, hentry, h⟩ := List.mem_flatMap.1 h
        obtain ⟨hkey, hvalue⟩ := hv.entry hes hentry
        exact short_violations hvalue (short_keyStep hpath hkey) others violation h
      · cases h
  | .items each => by
      intro violation h
      rw [keywordViolations] at h
      split at h
      · rename_i items hitems
        have hopened := hv.opened
        rw [hitems] at hopened
        obtain ⟨item, hitem, h⟩ := List.mem_flatMap.1 h
        have hvalue := Value.hereditary_short.item hv hitems _ (List.fst_mem_of_mem_zipIdx hitem)
        exact short_violations hvalue (short_concat hpath (short_index hopened.1 hitem)) each
          violation h
      · cases h
  | .minLength least => by
      intro violation h
      rw [keywordViolations] at h
      unfold minLengthViolations at h
      split at h
      · exact short_expect hpath (by simpa using hv) _ _ violation h
      · cases h
  | .minItems least => by
      intro violation h
      rw [keywordViolations] at h
      unfold minItemsViolations at h
      split at h
      · exact short_expect hpath (by simpa using hv) _ _ violation h
      · cases h
  | .minimum least => by
      rw [keywordViolations]
      exact short_expect hpath (by simpa using hv) _ _
  | .maximum greatest => by
      rw [keywordViolations]
      exact short_expect hpath (by simpa using hv) _ _
  | .choices texts => by
      rw [keywordViolations]
      exact short_expect hpath (by simpa using hv) _ _
  | .all schemas => by
      rw [keywordViolations]
      exact short_allViolations hv hpath schemas
  | .excluded schema => by
      intro violation h
      rw [keywordViolations] at h
      split at h
      · obtain rfl := List.mem_singleton.1 h
        exact ⟨hpath, by simpa using hv⟩
      · cases h

theorem short_fieldViolations {v : Value} {path : List Value} {es : Entries} (hv : v.Short)
    (hes : v.opened = .mapping es) (hpath : ∀ step ∈ path, step.Short) :
    ∀ fields : List (String × Schema), ∀ violation ∈ fieldViolations es path fields,
      violation.Short
  | [] => by simp [fieldViolations]
  | (name, schema) :: fields => by
      intro violation h
      rw [fieldViolations, List.mem_append] at h
      rcases h with h | h
      · cases hx : Entries.get? es name with
        | none =>
            rw [hx] at h
            cases h
        | some x =>
            rw [hx] at h
            have hvalue := Value.hereditary_short.get? hv hes hx
            have hstep : (Value.text name).Short := trivial
            exact short_violations hvalue (short_concat hpath hstep) schema violation h
      · exact short_fieldViolations hv hes hpath fields violation h

theorem short_allViolations {v : Value} {path : List Value} (hv : v.Short)
    (hpath : ∀ step ∈ path, step.Short) :
    ∀ schemas : List Schema, ∀ violation ∈ allViolations v path schemas, violation.Short
  | [] => by simp [allViolations]
  | schema :: schemas => by
      intro violation h
      rw [allViolations, List.mem_append] at h
      rcases h with h | h
      · exact short_violations hv hpath schema violation h
      · exact short_allViolations hv hpath schemas violation h

end

/-! ## Exclusions -/

mutual

/-- Whether nothing in a schema is an exclusion. -/
def isPlain : Schema → Bool
  | .rules keywords => arePlainKeywords keywords
  | .reference _ target => isPlain target

def arePlainKeywords : List Keyword → Bool
  | [] => true
  | keyword :: keywords => isPlainKeyword keyword && arePlainKeywords keywords

def isPlainKeyword : Keyword → Bool
  | .properties fields => arePlainFields fields
  | .additional schema | .items schema => isPlain schema
  | .all schemas => arePlain schemas
  | .excluded _ => false
  | _ => true

def arePlainFields : List (String × Schema) → Bool
  | [] => true
  | (_, schema) :: fields => isPlain schema && arePlainFields fields

def arePlain : List Schema → Bool
  | [] => true
  | schema :: schemas => isPlain schema && arePlain schemas

end

mutual

theorem notExcluded_of_isPlain {v : Value} {path : List Value} :
    ∀ {schema : Schema}, isPlain schema = true →
      ∀ violation ∈ violations v path schema, violation.byExclusion = false
  | .rules _, h => by
      rw [violations]
      exact notExcluded_of_arePlainKeywords h
  | .reference _ target, h => by
      rw [violations]
      exact @notExcluded_of_isPlain _ _ target h

theorem notExcluded_of_arePlainKeywords {v : Value} {path : List Value} :
    ∀ {keywords : List Keyword}, arePlainKeywords keywords = true →
      ∀ violation ∈ ruleViolations v path keywords, violation.byExclusion = false
  | [], _ => by simp [ruleViolations]
  | _ :: _, h => by
      rw [arePlainKeywords, Bool.and_eq_true] at h
      intro violation hviolation
      rw [ruleViolations, List.mem_append] at hviolation
      rcases hviolation with hviolation | hviolation
      · exact notExcluded_of_isPlainKeyword h.1 violation hviolation
      · exact notExcluded_of_arePlainKeywords h.2 violation hviolation

theorem notExcluded_of_isPlainKeyword {v : Value} {path : List Value} :
    ∀ {keyword : Keyword}, isPlainKeyword keyword = true →
      ∀ violation ∈ keywordViolations v path keyword, violation.byExclusion = false
  | .properties fields, h => by
      intro violation hviolation
      rw [keywordViolations] at hviolation
      split at hviolation
      · exact @notExcluded_of_arePlainFields _ _ fields h violation hviolation
      · cases hviolation
  | .additional others, h => by
      intro violation hviolation
      rw [keywordViolations] at hviolation
      split at hviolation
      · obtain ⟨entry, -, hviolation⟩ := List.mem_flatMap.1 hviolation
        exact @notExcluded_of_isPlain _ _ others h violation hviolation
      · cases hviolation
  | .items each, h => by
      intro violation hviolation
      rw [keywordViolations] at hviolation
      split at hviolation
      · obtain ⟨item, -, hviolation⟩ := List.mem_flatMap.1 hviolation
        exact @notExcluded_of_isPlain _ _ each h violation hviolation
      · cases hviolation
  | .all schemas, h => by
      rw [keywordViolations]
      exact @notExcluded_of_arePlain _ _ schemas h
  | .type _, _ | .minimum _, _ | .maximum _, _ | .choices _, _ => by
      intro violation hviolation
      rw [keywordViolations] at hviolation
      obtain rfl := of_mem_expect hviolation
      rfl
  | .required _, _ => by
      intro violation hviolation
      rw [keywordViolations, requiredViolations] at hviolation
      split at hviolation
      · obtain ⟨name, -, hviolation⟩ := List.mem_flatMap.1 hviolation
        obtain rfl := of_mem_expect hviolation
        rfl
      · cases hviolation
  | .minLength _, _ => by
      intro violation hviolation
      rw [keywordViolations] at hviolation
      unfold minLengthViolations at hviolation
      split at hviolation
      · obtain rfl := of_mem_expect hviolation
        rfl
      · cases hviolation
  | .minItems _, _ => by
      intro violation hviolation
      rw [keywordViolations] at hviolation
      unfold minItemsViolations at hviolation
      split at hviolation
      · obtain rfl := of_mem_expect hviolation
        rfl
      · cases hviolation

theorem notExcluded_of_arePlainFields {es : Entries} {path : List Value} :
    ∀ {fields : List (String × Schema)}, arePlainFields fields = true →
      ∀ violation ∈ fieldViolations es path fields, violation.byExclusion = false
  | [], _ => by simp [fieldViolations]
  | (name, _) :: _, h => by
      rw [arePlainFields, Bool.and_eq_true] at h
      intro violation hviolation
      rw [fieldViolations, List.mem_append] at hviolation
      rcases hviolation with hviolation | hviolation
      · cases hx : Entries.get? es name with
        | none =>
            rw [hx] at hviolation
            cases hviolation
        | some x =>
            rw [hx] at hviolation
            exact notExcluded_of_isPlain h.1 violation hviolation
      · exact notExcluded_of_arePlainFields h.2 violation hviolation

theorem notExcluded_of_arePlain {v : Value} {path : List Value} :
    ∀ {schemas : List Schema}, arePlain schemas = true →
      ∀ violation ∈ allViolations v path schemas, violation.byExclusion = false
  | [], _ => by simp [allViolations]
  | _ :: _, h => by
      rw [arePlain, Bool.and_eq_true] at h
      intro violation hviolation
      rw [allViolations, List.mem_append] at hviolation
      rcases hviolation with hviolation | hviolation
      · exact notExcluded_of_isPlain h.1 violation hviolation
      · exact notExcluded_of_arePlain h.2 violation hviolation

end

theorem not_isPlain {schema : Schema} {violation : Violation}
    (h : violation ∈ violations v path schema) (hexcluded : violation.byExclusion = true) :
    isPlain schema = false := by
  by_contra hplain
  rw [Bool.not_eq_false] at hplain
  exact absurd hexcluded (by rw [notExcluded_of_isPlain hplain violation h]; decide)

theorem not_isPlainKeyword {keyword : Keyword} {violation : Violation}
    (h : violation ∈ keywordViolations v path keyword) (hexcluded : violation.byExclusion = true) :
    isPlainKeyword keyword = false := by
  by_contra hplain
  rw [Bool.not_eq_false] at hplain
  exact absurd hexcluded (by rw [notExcluded_of_isPlainKeyword hplain violation h]; decide)

/-! ## Pairs of lists -/

/-- A list that is not empty, if it is a list. -/
def FilledIfList (es : Entries) (name : String) : Prop :=
  ∃ x, Entries.get? es name = some x ∧ ∀ items, x.opened = .list items → items ≠ []

/-- Two lists exclude each other only if both are there and have members. -/
theorem filled_of_exclusive {whitelist blacklist : String} (hne : whitelist ≠ blacklist)
    {es : Entries} (hv : v.opened = .mapping es) {violation : Violation}
    (h : violation ∈ violations v path (ManifestSchema.exclusive whitelist blacklist)) :
    FilledIfList es whitelist ∧ FilledIfList es blacklist := by
  obtain ⟨keyword, hkeyword, h⟩ := of_mem_ruleViolations h
  obtain rfl := List.mem_singleton.1 hkeyword
  rw [keywordViolations] at h
  split at h
  case isFalse => cases h
  case isTrue hnone =>
    have accepts := Accepts.of_violations (List.isEmpty_iff.1 hnone)
    have hfields := accepts.of_mem (List.mem_cons_of_mem _ List.mem_cons_self)
    have filled {name : String} (hname : name ∈ [whitelist, blacklist])
        (hlookup : [(whitelist, Schema.rules [.minItems 1]),
          (blacklist, .rules [.minItems 1])].lookup name = some (.rules [.minItems 1])) :
        FilledIfList es name := by
      obtain ⟨x, hx⟩ := (accepts.of_mem List.mem_cons_self).required hv hname
      refine ⟨x, hx, ?_⟩
      rintro items hitems rfl
      have hleast := ((hfields.property hv hlookup hx).of_mem List.mem_cons_self).minItems hitems
      cases hleast
    refine ⟨filled List.mem_cons_self ?_, filled (List.mem_cons_of_mem _ List.mem_cons_self) ?_⟩
    · rw [List.lookup_cons_self]
    · rw [List.lookup_cons, beq_false_of_ne hne.symm, List.lookup_cons_self]

end Schema

end Playbook
