import Mathlib.Data.List.Basic

/-!
# Lists with one more entry

`Inserted a l l'` says that `l'` is `l` with `a` put in somewhere.
-/

namespace Playbook

def Inserted {α : Type} (a : α) (l l' : List α) : Prop :=
  ∃ before after, l = before ++ after ∧ l' = before ++ a :: after

namespace Inserted

variable {α β : Type} {a : α} {l l' : List α}

theorem perm (h : Inserted a l l') : l'.Perm (a :: l) := by
  obtain ⟨before, after, rfl, rfl⟩ := h
  exact List.perm_middle

theorem mem_iff (h : Inserted a l l') {b : α} : b ∈ l' ↔ b = a ∨ b ∈ l := by
  rw [h.perm.mem_iff, List.mem_cons]

theorem length_eq (h : Inserted a l l') : l'.length = l.length + 1 := by
  rw [h.perm.length_eq, List.length_cons]

theorem ne (h : Inserted a l l') : l' ≠ l := by
  intro heq
  have hlength := h.length_eq
  rw [heq] at hlength
  omega

theorem append_left (h : Inserted a l l') (front : List α) :
    Inserted a (front ++ l) (front ++ l') := by
  obtain ⟨before, after, rfl, rfl⟩ := h
  exact ⟨front ++ before, after, by simp, by simp⟩

theorem append_right (h : Inserted a l l') (back : List α) :
    Inserted a (l ++ back) (l' ++ back) := by
  obtain ⟨before, after, rfl, rfl⟩ := h
  exact ⟨before, after ++ back, by simp, by simp⟩

theorem filterMap_some (h : Inserted a l l') {f : α → Option β} {b : β} (hb : f a = some b) :
    Inserted b (l.filterMap f) (l'.filterMap f) := by
  obtain ⟨before, after, rfl, rfl⟩ := h
  exact ⟨before.filterMap f, after.filterMap f, by simp, by simp [hb]⟩

theorem filterMap_none (h : Inserted a l l') {f : α → Option β} (hnone : f a = none) :
    l'.filterMap f = l.filterMap f := by
  obtain ⟨before, after, rfl, rfl⟩ := h
  simp [hnone]

/-- Sorted lists of the same entries but one. -/
theorem of_perm {le : α → α → Prop} (hperm : l'.Perm (a :: l)) (hl : l.Pairwise le)
    (hl' : l'.Pairwise le) (hanti : ∀ b ∈ l', ∀ c ∈ l', le b c → le c b → b = c) :
    Inserted a l l' := by
  obtain ⟨before, after, rfl⟩ := List.append_of_mem (hperm.mem_iff.2 List.mem_cons_self)
  have hrest : (before ++ after).Perm l := (List.perm_middle.symm.trans hperm).cons_inv
  have hsub : (before ++ after).Sublist (before ++ a :: after) :=
    (List.sublist_cons_self a after).append_left before
  refine ⟨before, after, (hrest.eq_of_pairwise ?_ (hl'.sublist hsub) hl).symm, rfl⟩
  intro b c hb hc hbc hcb
  exact hanti b (hsub.subset hb) c (hsub.subset (hrest.mem_iff.2 hc)) hbc hcb

end Inserted

end Playbook
