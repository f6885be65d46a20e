import Playbook.Proofs.Value.Reading

/-!
# Collections that hold themselves

A collection that holds itself has a member, namely itself or one that it is
in. A value is populated if that is so for all collections inside of it. What
a populated value holds is populated, and it has members if it counts as given.
-/

namespace Playbook.Value

mutual

def Populated : Value → Prop
  | .list items | .tuple items | .set items => AllPopulated items
  | .mapping entries => EntriesPopulated entries
  | .cycle _ content => content.isGiven = true ∧ Populated content
  | _ => True

def AllPopulated : List Value → Prop
  | [] => True
  | x :: items => Populated x ∧ AllPopulated items

def EntriesPopulated : List (Value × Value) → Prop
  | [] => True
  | (_, v) :: entries => Populated v ∧ EntriesPopulated entries

end

variable {v whole : Value} {es : Entries} {items : List Value}

theorem isGiven_putIn (name : Nat) (hwhole : whole.isGiven = true) (h : v.isGiven = true) :
    (putIn name whole v).isGiven = true := by
  cases v with
  | again n =>
      rw [putIn]
      split
      · exact hwhole
      · rfl
  | list items | tuple items =>
      rw [putIn]
      cases items with
      | nil => cases h
      | cons x items => rfl
  | mapping entries =>
      rw [putIn]
      cases entries with
      | nil => cases h
      | cons entry entries => rfl
  | cycle n content => rfl
  | _ => exact h

/-! ## Parts -/

theorem allPopulated_iff : AllPopulated items ↔ ∀ x ∈ items, x.Populated := by
  induction items with
  | nil => simp [AllPopulated]
  | cons x items ih => simp [AllPopulated, ih]

theorem entriesPopulated_iff : EntriesPopulated es ↔ ∀ entry ∈ es, entry.2.Populated := by
  induction es with
  | nil => simp [EntriesPopulated]
  | cons entry es ih => simp [EntriesPopulated, ih]

theorem hereditary_populated : Hereditary Populated where
  list _ h := ⟨allPopulated_iff.1 h, fun _ ho => allPopulated_iff.2 (List.forall_mem_map.2 ho)⟩
  tuple _ h := ⟨allPopulated_iff.1 h, fun _ ho => allPopulated_iff.2 (List.forall_mem_map.2 ho)⟩
  mapping _ h := ⟨entriesPopulated_iff.1 h, fun _ ho =>
    entriesPopulated_iff.2 (List.forall_mem_map.2 ho)⟩
  cycle _ _ h := ⟨h.2, fun name _ ho => ⟨isGiven_putIn name rfl h.1, ho⟩⟩

theorem Populated.get? (h : v.Populated) (hv : v.opened = .mapping es) {name : String} {x : Value}
    (hx : Entries.get? es name = some x) : x.Populated :=
  hereditary_populated.get? h hv hx

theorem Populated.field (h : v.Populated) {name : String} {x : Value} (hx : v.field name = .ok x) :
    x.Populated := hereditary_populated.field trivial h hx

/-! ## Members -/

theorem Populated.isGiven_opened (h : v.Populated) (hgiven : v.isGiven = true) :
    v.opened.isGiven = true := by
  cases v with
  | cycle name content => exact isGiven_putIn name rfl h.1
  | _ => exact hgiven

theorem Populated.members_ne_nil (h : v.Populated) (hgiven : v.isGiven = true)
    (hitems : v.members = .ok items) : items ≠ [] := by
  have hopened := h.isGiven_opened hgiven
  rw [members] at hitems
  cases hv : v.opened <;> rw [hv] at hitems hopened <;> cases hitems <;>
    simpa [isGiven] using hopened

/-- A value gives texts if and only if it counts as given. -/
theorem Populated.texts_ne_nil_iff (h : v.Populated) {names : List String}
    (hnames : v.texts = .ok names) : names ≠ [] ↔ v.isGiven = true := by
  unfold texts at hnames
  cases hgiven : v.isGiven with
  | false =>
      rw [hgiven] at hnames
      cases hnames
      simp
  | true =>
      refine iff_of_true ?_ rfl
      rw [hgiven, if_neg (by simp)] at hnames
      split at hnames
      · cases hnames
        simp
      · obtain ⟨items, hitems, hshown⟩ := Attempt.of_bind_ok hnames
        rintro rfl
        have hnil := Attempt.of_mapM_ok hshown
        exact h.members_ne_nil hgiven hitems (List.forall₂_nil_right_iff.1 hnil)

end Playbook.Value
