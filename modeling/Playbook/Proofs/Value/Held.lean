import Mathlib.Data.List.Basic
import Playbook.Value.Cycle

/-!
# What values hold

A collection holds its items, its members or the values under its keys. A
property is hereditary if what a collection holds has it too, and if the
collection keeps it when all of that is exchanged for other values with the
property. Such a property stays when a value that holds itself is opened.
-/

namespace Playbook.Value

/-- A value that holds no others. -/
def isSingle : Value → Bool
  | .list _ | .tuple _ | .set _ | .mapping _ | .cycle .. | .again _ => false
  | _ => true

/-- Induction over the items, members and values that a value holds. -/
@[elab_as_elim]
theorem induction_held {motive : Value → Prop} (single : ∀ v, v.isSingle = true → motive v)
    (list : ∀ items, (∀ x ∈ items, motive x) → motive (.list items))
    (tuple : ∀ items, (∀ x ∈ items, motive x) → motive (.tuple items))
    (set : ∀ members, (∀ x ∈ members, motive x) → motive (.set members))
    (mapping : ∀ entries : Entries, (∀ entry ∈ entries, motive entry.2) →
      motive (.mapping entries))
    (cycle : ∀ name content, motive content → motive (.cycle name content))
    (again : ∀ name, motive (.again name)) (v : Value) : motive v :=
  @Value.rec motive (fun items => ∀ x ∈ items, motive x)
    (fun entries => ∀ entry ∈ entries, motive entry.2) (fun entry => motive entry.2)
    (single .null rfl) (fun b => single (.bool b) rfl) (fun n => single (.int n) rfl)
    (fun x => single (.float x) rfl) (fun s => single (.text s) rfl)
    (fun data => single (.bytes data) rfl) (fun d => single (.day d) rfl)
    (fun t => single (.instant t) rfl) list tuple set mapping cycle again
    (List.forall_mem_nil _) (fun _ _ hx hitems => List.forall_mem_cons.2 ⟨hx, hitems⟩)
    (List.forall_mem_nil _) (fun _ _ hentry hentries => List.forall_mem_cons.2 ⟨hentry, hentries⟩)
    (fun _ _ _ hv => hv) v

/-! ## Putting a value in -/

theorem putInItems_eq_map (name : Nat) (whole : Value) (items : List Value) :
    putInItems name whole items = items.map (putIn name whole) := by
  induction items with
  | nil => rfl
  | cons x items ih => rw [putInItems, ih, List.map_cons]

theorem putInEntries_eq_map (name : Nat) (whole : Value) (es : Entries) :
    putInEntries name whole es = es.map fun entry => (entry.1, putIn name whole entry.2) := by
  induction es with
  | nil => rfl
  | cons entry es ih => rw [putInEntries, ih, List.map_cons]

theorem putIn_of_isSingle (name : Nat) (whole : Value) {v : Value} (h : v.isSingle = true) :
    putIn name whole v = v := by
  cases v <;> first | rfl | cases h

/-! ## Hereditary properties -/

/-- A property that a collection shares with what it holds, whatever has the property there. -/
structure Hereditary (P : Value → Prop) : Prop where
  list : ∀ items, P (.list items) → (∀ x ∈ items, P x) ∧
    ∀ f : Value → Value, (∀ x ∈ items, P (f x)) → P (.list (items.map f))
  tuple : ∀ items, P (.tuple items) → (∀ x ∈ items, P x) ∧
    ∀ f : Value → Value, (∀ x ∈ items, P (f x)) → P (.tuple (items.map f))
  mapping : ∀ es : Entries, P (.mapping es) → (∀ entry ∈ es, P entry.2) ∧
    ∀ f : Value → Value, (∀ entry ∈ es, P (f entry.2)) →
      P (.mapping (es.map fun entry => (entry.1, f entry.2)))
  cycle : ∀ n content, P (.cycle n content) → P content ∧ ∀ name whole,
    P (putIn name (.cycle name whole) content) →
      P (.cycle n (putIn name (.cycle name whole) content))

namespace Hereditary

variable {P : Value → Prop} {v : Value} {es : Entries} {items : List Value}

theorem putIn (h : Hereditary P) {name : Nat} {whole : Value} (hwhole : P (.cycle name whole))
    (hv : P v) : P (putIn name (.cycle name whole) v) := by
  induction v using induction_held with
  | single v hsingle =>
      rw [putIn_of_isSingle name _ hsingle]
      exact hv
  | list items ih =>
      obtain ⟨hitems, hexchanged⟩ := h.list items hv
      rw [Value.putIn, putInItems_eq_map]
      exact hexchanged _ fun x hx => ih x hx (hitems x hx)
  | tuple items ih =>
      obtain ⟨hitems, hexchanged⟩ := h.tuple items hv
      rw [Value.putIn, putInItems_eq_map]
      exact hexchanged _ fun x hx => ih x hx (hitems x hx)
  | set members _ => exact hv
  | mapping entries ih =>
      obtain ⟨hentries, hexchanged⟩ := h.mapping entries hv
      rw [Value.putIn, putInEntries_eq_map]
      exact hexchanged _ fun entry hentry => ih entry hentry (hentries entry hentry)
  | cycle n content ih =>
      obtain ⟨hcontent, hexchanged⟩ := h.cycle n content hv
      rw [Value.putIn]
      split
      · exact hv
      · exact hexchanged _ _ (ih hcontent)
  | again n =>
      rw [Value.putIn]
      split
      · exact hwhole
      · exact hv

theorem opened (h : Hereditary P) (hv : P v) : P v.opened := by
  cases v with
  | cycle name content => exact h.putIn hv (h.cycle name content hv).1
  | _ => exact hv

theorem item (h : Hereditary P) (hv : P v) (hitems : v.opened = .list items) :
    ∀ x ∈ items, P x :=
  (h.list items (hitems ▸ h.opened hv)).1

theorem entry (h : Hereditary P) (hv : P v) (hes : v.opened = .mapping es) :
    ∀ entry ∈ es, P entry.2 :=
  (h.mapping es (hes ▸ h.opened hv)).1

end Hereditary

end Playbook.Value
