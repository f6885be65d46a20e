import Mathlib.Data.List.Chain
import Mathlib.Logic.Relation

/-!
# Orders and circles

A list that has every member in front of all that it leads to holds nothing
that leads back to itself. A circle is a closed way that meets nothing twice.
-/

namespace Playbook

variable {α : Type} {r : α → α → Prop} {l : List α} {a b : α}

/-- Every member stands in front of all that it leads to. -/
def Descends (r : α → α → Prop) : List α → Prop
  | [] => True
  | a :: rest => (∀ b, r a b → b ∈ rest) ∧ Descends r rest

namespace Descends

theorem mem_of_rel (h : Descends r l) (ha : a ∈ l) (hab : r a b) : b ∈ l := by
  induction l with
  | nil => cases ha
  | cons first l ih =>
      rcases List.mem_cons.1 ha with rfl | ha
      · exact List.mem_cons_of_mem _ (h.1 b hab)
      · exact List.mem_cons_of_mem _ (ih h.2 ha)

theorem mem_of_transGen (h : Descends r l) (ha : a ∈ l) (hab : Relation.TransGen r a b) :
    b ∈ l := by
  induction hab with
  | single hab => exact h.mem_of_rel ha hab
  | tail _ hstep ih => exact h.mem_of_rel ih hstep

theorem not_transGen (h : Descends r l) (ha : a ∈ l) : ¬ Relation.TransGen r a a := by
  induction l with
  | nil => cases ha
  | cons first l ih =>
      intro hcycle
      by_cases hlater : a ∈ l
      · exact ih h.2 hlater hcycle
      · obtain rfl : a = first := (List.mem_cons.1 ha).resolve_right hlater
        obtain ⟨b, hab, hback⟩ := Relation.TransGen.head'_iff.1 hcycle
        have hb := h.1 b hab
        rcases Relation.reflTransGen_iff_eq_or_transGen.1 hback with heq | hback
        · exact hlater (heq ▸ hb)
        · exact hlater (h.2.mem_of_transGen hb hback)

end Descends

/-- A closed way; its members are different, apart from the one at both ends. -/
def IsCircle (r : α → α → Prop) (l : List α) : Prop :=
  ∃ way a, l = way ++ [a] ∧ way.head? = some a ∧ way.Nodup ∧ l.IsChain r

theorem IsCircle.exists_transGen (h : IsCircle r l) : ∃ a ∈ l, Relation.TransGen r a a := by
  obtain ⟨way, a, rfl, hhead, -, hchain⟩ := h
  cases way with
  | nil => cases hhead
  | cons first way =>
      obtain rfl : first = a := by simpa using hhead
      rw [List.cons_append, List.isChain_cons] at hchain
      obtain ⟨hfirst, hrest⟩ := hchain
      -- Whatever stands behind the first member is reached from it, the end included.
      have hreached := hrest.induction (Relation.TransGen r first) _
        (fun _ _ hstep hleads => hleads.tail hstep)
        fun hne => .single (hfirst _ (List.head?_eq_some_head hne))
      exact ⟨first, by simp, hreached first (by simp)⟩

end Playbook
