import Playbook.Proofs.Value.Held
import Playbook.Proofs.Work
import Playbook.Value.Reading

/-!
# Opened values and their fields

A value is proper if only lists and mappings hold themselves. What a proper
value holds is proper, also after it was opened, and a text stays a text.
-/

namespace Playbook.Value

/-! ## Proper values -/

def isCollection : Value → Bool
  | .list _ | .mapping _ => true
  | _ => false

mutual

def Proper : Value → Prop
  | .list items | .tuple items | .set items => ProperItems items
  | .mapping entries => ProperEntries entries
  | .cycle _ content => content.isCollection ∧ Proper content
  | _ => True

def ProperItems : List Value → Prop
  | [] => True
  | x :: xs => Proper x ∧ ProperItems xs

def ProperEntries : List (Value × Value) → Prop
  | [] => True
  | (_, v) :: es => Proper v ∧ ProperEntries es

end

variable {v : Value} {es : Entries} {items : List Value}

theorem properItems_iff : ProperItems items ↔ ∀ x ∈ items, x.Proper := by
  induction items with
  | nil => simp [ProperItems]
  | cons x items ih => simp [ProperItems, ih]

theorem properEntries_iff : ProperEntries es ↔ ∀ entry ∈ es, entry.2.Proper := by
  induction es with
  | nil => simp [ProperEntries]
  | cons entry es ih => simp [ProperEntries, ih]

theorem isCollection_putIn (name : Nat) (whole : Value) (h : v.isCollection = true) :
    (putIn name whole v).isCollection = true := by
  cases v with
  | list items => rfl
  | mapping entries => rfl
  | _ => cases h

theorem hereditary_proper : Hereditary Proper where
  list _ h := ⟨properItems_iff.1 h, fun _ ho => properItems_iff.2 (List.forall_mem_map.2 ho)⟩
  tuple _ h := ⟨properItems_iff.1 h, fun _ ho => properItems_iff.2 (List.forall_mem_map.2 ho)⟩
  mapping _ h := ⟨properEntries_iff.1 h, fun _ ho => properEntries_iff.2 (List.forall_mem_map.2 ho)⟩
  cycle _ _ h := ⟨h.2, fun name whole ho => ⟨isCollection_putIn name (.cycle name whole) h.1, ho⟩⟩

theorem Proper.opened (h : v.Proper) : v.opened.Proper := hereditary_proper.opened h

/-- A proper value that is no collection is what it is opened to. -/
theorem Proper.eq_opened (h : v.Proper) (hopened : v.opened.isCollection = false) :
    v.opened = v := by
  cases v with
  | cycle name content =>
      have hcollection := isCollection_putIn name (.cycle name content) h.1
      cases hcollection.symm.trans hopened
  | _ => rfl

/-! ## Fields -/

theorem mem_of_get? {name : String} {x : Value} (h : Entries.get? es name = some x) :
    ∃ key, (key, x) ∈ es := by
  obtain ⟨entry, hentry, rfl⟩ := Option.map_eq_some_iff.1 h
  exact ⟨entry.1, List.mem_of_find?_eq_some hentry⟩

theorem Hereditary.get? {P : Value → Prop} (h : Hereditary P) (hv : P v)
    (hes : v.opened = .mapping es) {name : String} {x : Value}
    (hx : Entries.get? es name = some x) : P x := by
  obtain ⟨key, hmem⟩ := mem_of_get? hx
  exact h.entry hv hes _ hmem

theorem fieldOr_eq (h : v.opened = .mapping es) (name : String) (fallback : Value) :
    v.fieldOr name fallback = .ok ((Entries.get? es name).getD fallback) := by
  rw [fieldOr, entries, h]
  rfl

theorem field_eq (h : v.opened = .mapping es) (name : String) :
    v.field name = .ok ((Entries.get? es name).getD .null) := fieldOr_eq h name .null

theorem of_fieldOr_ok {name : String} {fallback x : Value} (h : v.fieldOr name fallback = .ok x) :
    ∃ es, v.opened = .mapping es ∧ x = (Entries.get? es name).getD fallback := by
  unfold fieldOr entries at h
  split at h
  · cases h
    exact ⟨_, ‹_›, rfl⟩
  · cases h

/-- A field that is read is `null` or one of the entries. -/
theorem of_field_ok {name : String} {x : Value} (h : v.field name = .ok x) :
    x = .null ∨ ∃ es, v.opened = .mapping es ∧ Entries.get? es name = some x := by
  obtain ⟨es, hv, rfl⟩ := of_fieldOr_ok h
  cases hfound : Entries.get? es name with
  | none => exact .inl rfl
  | some found => exact .inr ⟨es, hv, hfound⟩

theorem Hereditary.field {P : Value → Prop} (h : Hereditary P) (hnull : P .null) (hv : P v)
    {name : String} {x : Value} (hx : v.field name = .ok x) : P x := by
  rcases of_field_ok hx with rfl | ⟨es, hes, hfound⟩
  · exact hnull
  · exact h.get? hv hes hfound

theorem required_eq (h : v.opened = .mapping es) {name : String} {x : Value}
    (hx : Entries.get? es name = some x) : v.required name = .ok x := by
  rw [required, h]
  simp only [hx]

theorem Proper.get? (proper : v.Proper) (h : v.opened = .mapping es) {name : String} {x : Value}
    (hx : Entries.get? es name = some x) : x.Proper :=
  hereditary_proper.get? proper h hx

theorem Proper.item (proper : v.Proper) (h : v.opened = .list items) {x : Value} (hx : x ∈ items) :
    x.Proper :=
  hereditary_proper.item proper h x hx

/-! ## Members -/

theorem orElse_of {P : Value → Prop} {replacement : Value} (hv : P v)
    (hreplacement : P replacement) : P (v.orElse replacement) := by
  rw [orElse]
  split
  · exact hv
  · exact hreplacement

/-- The members of a value have its property if keys, characters and bytes have it as well. -/
theorem Hereditary.member {P : Value → Prop} (h : Hereditary P)
    (hset : ∀ own, P (.set own) → ∀ x ∈ own, P x)
    (hkeys : ∀ es : Entries, P (.mapping es) → ∀ entry ∈ es, P entry.1)
    (htext : ∀ s, P (.text s)) (hbyte : ∀ byte : UInt8, P (.int byte.toNat)) (hv : P v)
    (hitems : v.members = .ok items) : ∀ x ∈ items, P x := by
  have hopened := h.opened hv
  intro x hx
  rw [members] at hitems
  cases hown : v.opened with
  | list own =>
      rw [hown] at hitems hopened
      cases hitems
      exact (h.list _ hopened).1 x hx
  | tuple own =>
      rw [hown] at hitems hopened
      cases hitems
      exact (h.tuple _ hopened).1 x hx
  | set own =>
      rw [hown] at hitems hopened
      cases hitems
      exact hset _ hopened x hx
  | mapping es =>
      rw [hown] at hitems hopened
      cases hitems
      obtain ⟨entry, hentry, rfl⟩ := List.mem_map.1 hx
      exact hkeys _ hopened entry hentry
  | text s =>
      rw [hown] at hitems
      cases hitems
      obtain ⟨c, -, rfl⟩ := List.mem_map.1 hx
      exact htext _
  | bytes data =>
      rw [hown] at hitems
      cases hitems
      obtain ⟨byte, -, rfl⟩ := List.mem_map.1 hx
      exact hbyte byte
  | _ =>
      rw [hown] at hitems
      cases hitems

/-! ## Texts -/

@[simp] theorem shown_text (s : String) : (Value.text s).shown = .ok s := rfl

theorem shown_eq_ok_iff {text : String} : v.shown = .ok text ↔ v.isShowable ∧ text = v.display := by
  rw [shown]
  cases v.isShowable with
  | true => simp [eq_comm]
  | false => simp

theorem shown_eq_error {fault : Fault} (h : v.shown = .error fault) :
    fault = .tooManyDigits none := by
  rw [shown] at h
  split at h <;> cases h
  rfl

theorem mapM_shown (names : List String) : (names.map Value.text).mapM shown = .ok names := by
  induction names with
  | nil => rfl
  | cons name names ih =>
      rw [List.map_cons, List.mapM_cons, ih]
      rfl

theorem eq_nil_of_not_given (h : v.opened = .list items) (hgiven : v.isGiven = false) :
    items = [] := by
  cases v with
  | list own =>
      obtain rfl : own = items := by injection h
      exact List.isEmpty_iff.1 (by simpa [isGiven] using hgiven)
  | cycle name content => cases hgiven
  | _ => cases h

theorem texts_eq {names : List String} (h : v.opened = .list (names.map .text)) :
    v.texts = .ok names := by
  unfold texts
  cases hgiven : v.isGiven with
  | true =>
      rw [if_neg (by simp)]
      cases v with
      | text s => cases h
      | _ =>
          simp only [members, h]
          exact mapM_shown names
  | false =>
      obtain rfl := List.map_eq_nil_iff.1 (eq_nil_of_not_given h hgiven)
      rfl

/-- A list that is not given has no members, and so nothing takes its place. -/
theorem members_orElse (h : v.opened = .list items) :
    (v.orElse (.list [])).members = .ok items := by
  cases hgiven : v.isGiven with
  | true => rw [orElse, hgiven, if_pos rfl, members, h]
  | false =>
      rw [eq_nil_of_not_given h hgiven, orElse, hgiven]
      rfl

end Playbook.Value
