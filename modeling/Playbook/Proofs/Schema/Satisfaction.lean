import Playbook.Proofs.Schema.Violations

/-!
# Satisfaction of schemas

What a value has to be to satisfy a schema, keyword by keyword and without
paths and messages. A keyword says nothing of values of other kinds, and an
exclusion is satisfied by what does not satisfy its schema. The values that
satisfy a schema are those that have no violations.
-/

namespace Playbook.Schema

mutual

def Satisfied (v : Value) : Schema → Prop
  | .rules keywords => RulesSatisfied v keywords
  | .reference _ target => Satisfied v target

def RulesSatisfied (v : Value) : List Keyword → Prop
  | [] => True
  | keyword :: keywords => KeywordSatisfied v keyword ∧ RulesSatisfied v keywords

def KeywordSatisfied (v : Value) : Keyword → Prop
  | .type kinds => ∃ kind ∈ kinds, kind.holds v = true
  | .required names => ∀ es, v.opened = .mapping es →
      ∀ name ∈ names, ∃ x, Entries.get? es name = some x
  | .properties fields => ∀ es, v.opened = .mapping es → FieldsSatisfied es fields
  | .additional others => ∀ es, v.opened = .mapping es → ∀ entry ∈ es, Satisfied entry.2 others
  | .items each => ∀ items, v.opened = .list items → ∀ x ∈ items, Satisfied x each
  | .minLength least => ∀ s, v = .text s → least ≤ s.length
  | .minItems least => ∀ items, v.opened = .list items → least ≤ items.length
  | .minimum least =>
      (∀ n, v = .int n → least ≤ n) ∧ ∀ x, v = .float x → x.lessInt least = false
  | .maximum greatest =>
      (∀ n, v = .int n → n ≤ greatest) ∧ ∀ x, v = .float x → Binary64.intLess greatest x = false
  | .choices texts => ∃ s ∈ texts, v = .text s
  | .all schemas => AllSatisfied v schemas
  | .excluded schema => ¬ Satisfied v schema

def FieldsSatisfied (es : Entries) : List (String × Schema) → Prop
  | [] => True
  | (name, schema) :: fields =>
      (∀ x, Entries.get? es name = some x → Satisfied x schema) ∧ FieldsSatisfied es fields

def AllSatisfied (v : Value) : List Schema → Prop
  | [] => True
  | schema :: schemas => Satisfied v schema ∧ AllSatisfied v schemas

end

variable {v : Value} {path : List Value}

/-! ## Keywords without schemas -/

theorem expect_eq_nil_iff {holds : Bool} {subject : Option Value} {text : String} :
    expect holds path subject text = [] ↔ holds = true := by
  cases holds <;> simp [expect]

theorem typeViolations_eq_nil_iff {kinds : List Kind} :
    typeViolations kinds v path = [] ↔ ∃ kind ∈ kinds, kind.holds v = true := by
  rw [typeViolations, expect_eq_nil_iff, List.any_eq_true]

theorem requiredViolations_eq_nil_iff {names : List String} :
    requiredViolations names v path = [] ↔ ∀ es, v.opened = .mapping es →
      ∀ name ∈ names, ∃ x, Entries.get? es name = some x := by
  unfold requiredViolations
  cases v.opened with
  | mapping es => simp [List.flatMap_eq_nil_iff, expect_eq_nil_iff, Option.isSome_iff_exists]
  | _ => simp

theorem minLengthViolations_eq_nil_iff {least : Nat} :
    minLengthViolations least v path = [] ↔ ∀ s, v = .text s → least ≤ s.length := by
  cases v with
  | text s => simp [minLengthViolations, expect_eq_nil_iff]
  | _ => simp [minLengthViolations]

theorem minItemsViolations_eq_nil_iff {least : Nat} :
    minItemsViolations least v path = [] ↔
      ∀ items, v.opened = .list items → least ≤ items.length := by
  unfold minItemsViolations
  cases v.opened with
  | list items => simp [expect_eq_nil_iff]
  | _ => simp

theorem minimumViolations_eq_nil_iff {least : Int} :
    minimumViolations least v path = [] ↔
      (∀ n, v = .int n → least ≤ n) ∧ ∀ x, v = .float x → x.lessInt least = false := by
  cases v <;> simp [minimumViolations, expect_eq_nil_iff]

theorem maximumViolations_eq_nil_iff {greatest : Int} :
    maximumViolations greatest v path = [] ↔
      (∀ n, v = .int n → n ≤ greatest) ∧
        ∀ x, v = .float x → Binary64.intLess greatest x = false := by
  cases v <;> simp [maximumViolations, expect_eq_nil_iff]

theorem choiceViolations_eq_nil_iff {texts : List String} :
    choiceViolations texts v path = [] ↔ ∃ s ∈ texts, v = .text s := by
  rw [choiceViolations, expect_eq_nil_iff]
  cases v <;> simp [Value.isAmong]

/-! ## Schemas -/

mutual

/-- The values without violations are those that satisfy the schema. -/
theorem violations_eq_nil_iff {v : Value} {path : List Value} :
    ∀ {schema : Schema}, violations v path schema = [] ↔ Satisfied v schema
  | .rules keywords => by
      rw [violations, Satisfied]
      exact ruleViolations_eq_nil_iff
  | .reference _ target => by
      rw [violations, Satisfied]
      exact @violations_eq_nil_iff _ _ target

theorem ruleViolations_eq_nil_iff {v : Value} {path : List Value} :
    ∀ {keywords : List Keyword}, ruleViolations v path keywords = [] ↔ RulesSatisfied v keywords
  | [] => by simp [ruleViolations, RulesSatisfied]
  | keyword :: keywords => by
      rw [ruleViolations, RulesSatisfied, List.append_eq_nil_iff, keywordViolations_eq_nil_iff,
        ruleViolations_eq_nil_iff]

theorem keywordViolations_eq_nil_iff {v : Value} {path : List Value} :
    ∀ {keyword : Keyword}, keywordViolations v path keyword = [] ↔ KeywordSatisfied v keyword
  | .type _ => typeViolations_eq_nil_iff
  | .required _ => requiredViolations_eq_nil_iff
  | .minLength _ => minLengthViolations_eq_nil_iff
  | .minItems _ => minItemsViolations_eq_nil_iff
  | .minimum _ => minimumViolations_eq_nil_iff
  | .maximum _ => maximumViolations_eq_nil_iff
  | .choices _ => choiceViolations_eq_nil_iff
  | .properties fields => by
      rw [keywordViolations, KeywordSatisfied]
      cases v.opened with
      | mapping es => simp [@fieldViolations_eq_nil_iff es path fields]
      | _ => simp
  | .additional others => by
      rw [keywordViolations, KeywordSatisfied]
      cases v.opened with
      | mapping es =>
          simp only [List.flatMap_eq_nil_iff, Value.mapping.injEq, forall_eq']
          exact forall₂_congr fun _ _ => @violations_eq_nil_iff _ _ others
      | _ => simp
  | .items each => by
      rw [keywordViolations, KeywordSatisfied]
      cases v.opened with
      | list items =>
          have hitems := @List.forall_mem_map _ _ Prod.fst items.zipIdx (Satisfied · each)
          rw [List.zipIdx_map_fst] at hitems
          simp only [List.flatMap_eq_nil_iff, Value.list.injEq, forall_eq', hitems]
          exact forall₂_congr fun _ _ => @violations_eq_nil_iff _ _ each
      | _ => simp
  | .all schemas => by
      rw [keywordViolations, KeywordSatisfied]
      exact @allViolations_eq_nil_iff v path schemas
  | .excluded schema => by
      rw [keywordViolations, KeywordSatisfied, ← @violations_eq_nil_iff v path schema]
      simp

theorem fieldViolations_eq_nil_iff {es : Entries} {path : List Value} :
    ∀ {fields : List (String × Schema)},
      fieldViolations es path fields = [] ↔ FieldsSatisfied es fields
  | [] => by simp [fieldViolations, FieldsSatisfied]
  | (name, schema) :: fields => by
      rw [fieldViolations, FieldsSatisfied, List.append_eq_nil_iff, fieldViolations_eq_nil_iff]
      refine and_congr_left fun _ => ?_
      cases Entries.get? es name with
      | none => simp
      | some x => simp [@violations_eq_nil_iff x (path ++ [.text name]) schema]

theorem allViolations_eq_nil_iff {v : Value} {path : List Value} :
    ∀ {schemas : List Schema}, allViolations v path schemas = [] ↔ AllSatisfied v schemas
  | [] => by simp [allViolations, AllSatisfied]
  | schema :: schemas => by
      rw [allViolations, AllSatisfied, List.append_eq_nil_iff, allViolations_eq_nil_iff,
        @violations_eq_nil_iff v path schema]

end

theorem Satisfied.accepts {schema : Schema} (h : Satisfied v schema) : schema.Accepts v :=
  .of_violations (violations_eq_nil_iff.2 h : violations v [] schema = [])

end Playbook.Schema
