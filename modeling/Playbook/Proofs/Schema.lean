import Playbook.Proofs.Value.Reading
import Playbook.Schema.Manifest

/-!
# Acceptance by schemas

A value is accepted if it does nothing against a schema, exclusions of list
pairs apart. Each keyword that accepts a value says something of it.
-/

namespace Playbook

/-- Only exclusions are violated. -/
def OnlyExcluded (violations : List Violation) : Prop :=
  ∀ violation ∈ violations, violation.byExclusion = true

def Schema.Accepts (schema : Schema) (v : Value) : Prop :=
  ∃ path, OnlyExcluded (schema.violations v path)

def Keyword.Accepts (keyword : Keyword) (v : Value) : Prop :=
  ∃ path, OnlyExcluded (Schema.keywordViolations v path keyword)

theorem OnlyExcluded.of_expect {holds : Bool} {path : List Value} {subject : Option Value}
    {text : String} (h : OnlyExcluded (Schema.expect holds path subject text)) : holds = true := by
  cases holds with
  | true => rfl
  | false => exact absurd (h _ List.mem_cons_self) (by simp)

theorem OnlyExcluded.of_flatMap {α : Type} {l : List α} {f : α → List Violation}
    (h : OnlyExcluded (l.flatMap f)) {a : α} (ha : a ∈ l) : OnlyExcluded (f a) :=
  fun violation hviolation => h violation (List.mem_flatMap.2 ⟨a, ha, hviolation⟩)

variable {v : Value} {es : Entries} {name : String}

attribute [local simp] Schema.violations Schema.ruleViolations Schema.keywordViolations

namespace Schema

theorem Accepts.of_mem {keywords : List Keyword} (h : (Schema.rules keywords).Accepts v)
    {keyword : Keyword} (hkeyword : keyword ∈ keywords) : keyword.Accepts v := by
  obtain ⟨path, h⟩ := h
  refine ⟨path, fun violation hviolation => h violation ?_⟩
  rw [violations]
  clear h
  induction keywords with
  | nil => cases hkeyword
  | cons first keywords ih =>
      rw [ruleViolations, List.mem_append]
      rcases List.mem_cons.1 hkeyword with rfl | hkeyword
      · exact .inl hviolation
      · exact .inr (ih hkeyword)

theorem Accepts.of_violations {schema : Schema} {path : List Value}
    (h : violations v path schema = []) : schema.Accepts v := by
  refine ⟨path, fun violation hviolation => ?_⟩
  rw [h] at hviolation
  cases hviolation

theorem Accepts.of_reference {target : Schema} (h : (Schema.reference name target).Accepts v) :
    target.Accepts v := by
  obtain ⟨path, h⟩ := h
  exact ⟨path, by simpa using h⟩

end Schema

namespace Keyword

theorem Accepts.holds {kinds : List Kind} (h : (Keyword.type kinds).Accepts v) :
    ∃ kind ∈ kinds, kind.holds v = true := by
  obtain ⟨path, h⟩ := h
  rw [Schema.keywordViolations] at h
  exact List.any_eq_true.1 h.of_expect

theorem Accepts.required {names : List String} (h : (Keyword.required names).Accepts v)
    (hv : v.opened = .mapping es) (hname : name ∈ names) : ∃ x, Entries.get? es name = some x := by
  obtain ⟨path, h⟩ := h
  rw [Schema.keywordViolations, Schema.requiredViolations, hv] at h
  exact Option.isSome_iff_exists.1 (h.of_flatMap hname).of_expect

theorem Accepts.property {fields : List (String × Schema)}
    (h : (Keyword.properties fields).Accepts v) (hv : v.opened = .mapping es) {schema : Schema}
    (hfield : fields.lookup name = some schema) {x : Value}
    (hx : Entries.get? es name = some x) : schema.Accepts x := by
  obtain ⟨path, h⟩ := h
  rw [Schema.keywordViolations, hv] at h
  refine ⟨path ++ [.text name], fun violation hviolation => h violation ?_⟩
  have hmem : (name, schema) ∈ fields := by
    obtain ⟨before, after, rfl, -⟩ := List.lookup_eq_some_iff.1 hfield
    simp
  clear h hfield
  induction fields with
  | nil => cases hmem
  | cons field fields ih =>
      obtain ⟨other, otherSchema⟩ := field
      simp only at ih ⊢
      rw [Schema.fieldViolations, List.mem_append]
      rcases List.mem_cons.1 hmem with heq | hmem
      · cases heq
        rw [hx]
        exact .inl hviolation
      · exact .inr (ih hmem)

theorem Accepts.others {others : Schema} (h : (Keyword.additional others).Accepts v)
    (hv : v.opened = .mapping es) {entry : Value × Value} (hentry : entry ∈ es) :
    others.Accepts entry.2 := by
  obtain ⟨path, h⟩ := h
  rw [Schema.keywordViolations, hv] at h
  exact ⟨_, h.of_flatMap hentry⟩

theorem Accepts.item {each : Schema} (h : (Keyword.items each).Accepts v) {items : List Value}
    (hv : v.opened = .list items) {x : Value} (hx : x ∈ items) : each.Accepts x := by
  obtain ⟨path, h⟩ := h
  rw [Schema.keywordViolations, hv] at h
  obtain ⟨index, hindex, hget⟩ := List.mem_iff_getElem.1 hx
  have hmem : (x, index) ∈ items.zipIdx :=
    List.mk_mem_zipIdx_iff_getElem?.2 (List.getElem?_eq_some_iff.2 ⟨hindex, hget⟩)
  exact ⟨_, h.of_flatMap hmem⟩

theorem Accepts.minLength {least : Nat} {s : String}
    (h : (Keyword.minLength least).Accepts (.text s)) : least ≤ s.length := by
  obtain ⟨path, h⟩ := h
  rw [Schema.keywordViolations] at h
  exact of_decide_eq_true h.of_expect

theorem Accepts.minItems {least : Nat} (h : (Keyword.minItems least).Accepts v)
    {items : List Value} (hv : v.opened = .list items) : least ≤ items.length := by
  obtain ⟨path, h⟩ := h
  rw [Schema.keywordViolations, Schema.minItemsViolations, hv] at h
  exact of_decide_eq_true h.of_expect

theorem Accepts.choice {texts : List String} (h : (Keyword.choices texts).Accepts v) :
    ∃ s ∈ texts, v = .text s := by
  obtain ⟨path, h⟩ := h
  rw [Schema.keywordViolations] at h
  have hamong := OnlyExcluded.of_expect h
  cases v with
  | text s => exact ⟨s, List.contains_iff_mem.1 hamong, rfl⟩
  | _ => cases hamong

end Keyword

/-! ## Common schemas -/

namespace Schema

theorem Accepts.typed {keywords : List Keyword} {kind : Kind}
    (h : (Schema.rules keywords).Accepts v) (htype : Keyword.type [kind] ∈ keywords) :
    kind.holdsOpened v.opened = true := by
  obtain ⟨other, hother, hholds⟩ := (h.of_mem htype).holds
  obtain rfl := List.mem_singleton.1 hother
  exact hholds

theorem Accepts.mapping {keywords : List Keyword} (h : (Schema.rules keywords).Accepts v)
    (htype : Keyword.type [.object] ∈ keywords) : ∃ es, v.opened = .mapping es := by
  have hholds := h.typed htype
  cases hv : v.opened with
  | mapping es => exact ⟨es, rfl⟩
  | _ =>
      rw [hv] at hholds
      cases hholds

theorem Accepts.list {keywords : List Keyword} (h : (Schema.rules keywords).Accepts v)
    (htype : Keyword.type [.array] ∈ keywords) : ∃ items, v.opened = .list items := by
  have hholds := h.typed htype
  cases hv : v.opened with
  | list items => exact ⟨items, rfl⟩
  | _ =>
      rw [hv] at hholds
      cases hholds

theorem Accepts.string {keywords : List Keyword} (proper : v.Proper)
    (h : (Schema.rules keywords).Accepts v) (htype : Keyword.type [.string] ∈ keywords) :
    ∃ s, v = .text s := by
  have hholds := h.typed htype
  cases hv : v.opened with
  | text s =>
      have hopened := proper.eq_opened (by rw [hv]; rfl)
      exact ⟨s, hopened.symm.trans hv⟩
  | _ =>
      rw [hv] at hholds
      cases hholds

theorem Accepts.filled (proper : v.Proper) (h : filledText.Accepts v) :
    ∃ s, s ≠ "" ∧ v = .text s := by
  obtain ⟨s, rfl⟩ := Accepts.string proper h List.mem_cons_self
  have hlength := (h.of_mem (List.mem_cons_of_mem _ List.mem_cons_self)).minLength
  refine ⟨s, ?_, rfl⟩
  rintro rfl
  cases hlength

/-- A list of texts, whatever else is asked of each of them. -/
theorem Accepts.listed (proper : v.Proper) {keywords : List Keyword} {each : List Keyword}
    (h : (Schema.rules keywords).Accepts v) (htype : Keyword.type [.array] ∈ keywords)
    (hitems : Keyword.items (.rules each) ∈ keywords) (heach : Keyword.type [.string] ∈ each) :
    ∃ names : List String, v.opened = .list (names.map .text) := by
  obtain ⟨items, hv⟩ := h.list htype
  have hall : ∀ x ∈ items, ∃ s, x = .text s := fun x hx =>
    Accepts.string (proper.item hv hx) ((h.of_mem hitems).item hv hx) heach
  have hnames : ∃ names : List String, items = names.map .text := by
    clear hv
    induction items with
    | nil => exact ⟨[], rfl⟩
    | cons x items ih =>
        obtain ⟨s, rfl⟩ := hall x List.mem_cons_self
        obtain ⟨names, rfl⟩ := ih fun other hother => hall other (List.mem_cons_of_mem _ hother)
        exact ⟨s :: names, rfl⟩
  obtain ⟨names, rfl⟩ := hnames
  exact ⟨names, hv⟩

end Schema

/-- A document without errors has no violations but exclusions. -/
theorem ManifestKind.onlyExcluded_of_schemaErrors {kind : ManifestKind} {v : Value}
    (h : kind.schemaErrors v = .ok []) :
    OnlyExcluded (kind.schema.schema.violations v []) := by
  obtain ⟨found, hfound, h⟩ := Attempt.of_bind_ok h
  obtain ⟨hall, heq⟩ := Attempt.of_filterMapM_ok hfound
  have hnone : found = [] := by
    have hperm := List.mergeSort_perm found fun a b =>
      decide (a.1 < b.1) || (a.1 == b.1 && !decide (b.2 < a.2))
    rw [Except.ok.inj h] at hperm
    exact hperm.nil_eq.symm
  intro violation hviolation
  obtain ⟨result, hresult⟩ := hall violation hviolation
  have hdropped : Attempt.chosen? schemaError? violation = none := by
    rw [hnone] at heq
    exact List.filterMap_eq_nil_iff.1 heq.symm violation hviolation
  rw [Attempt.chosen?, hresult] at hdropped
  subst hdropped
  obtain ⟨message, -, h⟩ := Attempt.of_bind_ok hresult
  by_contra hexcluded
  rw [if_neg hexcluded] at h
  obtain ⟨place, -, h⟩ := Attempt.of_bind_ok h
  cases h

theorem ManifestKind.accepts_of_schemaErrors {kind : ManifestKind} {v : Value}
    (h : kind.schemaErrors v = .ok []) : kind.schema.schema.Accepts v :=
  ⟨[], onlyExcluded_of_schemaErrors h⟩

end Playbook
