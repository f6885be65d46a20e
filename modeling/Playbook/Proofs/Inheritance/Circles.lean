import Mathlib.Data.List.Rotate
import Mathlib.Data.List.TakeWhile
import Playbook.Inheritance.Cycles
import Playbook.Proofs.Inheritance.Order

/-!
# Steps of circles

A circle can be entered at any of its members: it has the same steps then. Two
circles may share a step and still not be the same.
-/

namespace Playbook

open scoped List

variable {α : Type} {r : α → α → Prop} {l other way : List α} {a b : α}

/-- Each member with the next one. -/
def steps (l : List α) : List (α × α) := l.zip l.tail

/-- The same closed way, wherever it begins. -/
def SameCircle (l other : List α) : Prop := l.dropLast ~r other.dropLast

/-- Some member is followed by the same one in both. -/
def SharesStep (l other : List α) : Prop := ∃ step ∈ steps l, step ∈ steps other

theorem isChain_iff_steps : l.IsChain r ↔ ∀ step ∈ steps l, r step.1 step.2 := by
  induction l with
  | nil => simp [steps]
  | cons a l ih =>
      cases l with
      | nil => simp [steps]
      | cons b l =>
          rw [List.isChain_cons_cons, ih]
          simp [steps]

theorem mem_steps_concat (l : List α) (a b : α) : (a, b) ∈ steps (l ++ [a] ++ [b]) := by
  have hchain : (l ++ [a] ++ [b]).IsChain fun x y => (x, y) ∈ steps (l ++ [a] ++ [b]) :=
    isChain_iff_steps.2 fun _ hstep => hstep
  simpa using hchain.rel_getLast_head_of_append (by simp) (by simp)

/-- A closed way steps from each of its members to the next, and from the last to the first. -/
theorem steps_of_closed (hhead : way.head? = some a) :
    steps (way ++ [a]) = way.zip (way.rotate 1) := by
  cases way with
  | nil => cases hhead
  | cons first way =>
      obtain rfl : first = a := by simpa using hhead
      have hlength : (first :: way).length = (way ++ [first]).length := by simp
      have hzip : (first :: way ++ [first]).zip (way ++ [first] ++ []) =
          (first :: way).zip (way ++ [first]) ++ [] := List.zip_append hlength
      rw [List.append_nil, List.append_nil] at hzip
      rw [steps, List.cons_append, List.tail_cons, ← List.cons_append, hzip]
      simp

theorem zip_rotate_isRotated (h : way ~r other) :
    way.zip (way.rotate 1) ~r other.zip (other.rotate 1) := by
  obtain ⟨n, rfl⟩ := h
  refine ⟨n, ?_⟩
  rw [List.zip, List.zipWith_rotate_distrib _ _ _ _ (by simp), List.rotate_rotate,
    List.rotate_rotate, Nat.add_comm]

namespace IsCircle

theorem closed (h : IsCircle r l) : ∃ way a, l = way ++ [a] ∧ way.head? = some a ∧
    l.dropLast = way := by
  obtain ⟨way, a, rfl, hhead, -⟩ := h
  exact ⟨way, a, rfl, hhead, List.dropLast_concat⟩

theorem isChain (h : IsCircle r l) : l.IsChain r := by
  obtain ⟨_, _, -, -, -, hchain⟩ := h
  exact hchain

/-- What holds at both ends of each step holds all around. -/
theorem forall_mem (h : IsCircle r l) {p : α → Prop} (hp : ∀ a b, r a b → p a ∧ p b) :
    ∀ a ∈ l, p a := by
  obtain ⟨way, a, rfl, hhead, -, hchain⟩ := h
  have hfirst : p a := by
    cases way with
    | nil => cases hhead
    | cons first way =>
        obtain rfl : first = a := by simpa using hhead
        rw [List.cons_append, List.isChain_cons] at hchain
        exact (hp _ _ (hchain.1 _ (List.head?_eq_some_head (by simp)))).1
  refine hchain.induction p _ (fun _ _ hstep _ => (hp _ _ hstep).2) fun _ => ?_
  have hhead : (way ++ [a]).head? = some a := by rw [List.head?_append, hhead]; rfl
  rwa [List.head_of_mem_head? hhead]

/-- A circle leads along its own steps. -/
theorem along_steps (h : IsCircle r l) : IsCircle (fun a b => (a, b) ∈ steps l) l := by
  obtain ⟨way, a, heq, hhead, hnodup, -⟩ := h
  exact ⟨way, a, heq, hhead, hnodup, isChain_iff_steps.2 fun _ hstep => hstep⟩

/-- The steps of a circle do not depend on where it begins. -/
theorem mem_steps_iff (h : IsCircle r l) (hother : IsCircle r other) (hsame : SameCircle l other)
    {step : α × α} : step ∈ steps l ↔ step ∈ steps other := by
  obtain ⟨way, a, rfl, hhead, hway⟩ := h.closed
  obtain ⟨way', a', rfl, hhead', hway'⟩ := hother.closed
  rw [SameCircle, hway, hway'] at hsame
  rw [steps_of_closed hhead, steps_of_closed hhead']
  exact (zip_rotate_isRotated hsame).mem_iff

theorem sharesStep_iff (h : IsCircle r l) (hother : IsCircle r other)
    (hsame : SameCircle l other) {circle : List α} :
    SharesStep circle l ↔ SharesStep circle other :=
  exists_congr fun _ => and_congr_right fun _ => h.mem_steps_iff hother hsame

end IsCircle

namespace Graph

theorem rotate_isRotated (circle : List String) : circle ~r rotate circle := by
  rw [rotate]
  split
  · exact List.IsRotated.refl circle
  · rename_i start _
    have hturned := @List.isRotated_append _ (circle.takeWhile (· != start))
      (circle.dropWhile (· != start))
    rwa [List.takeWhile_append_dropWhile] at hturned

/-- A circle that is entered elsewhere and closed again is a circle. -/
theorem isCircle_close {r : String → String → Prop} {l way : List String} (h : IsCircle r l)
    (hrotated : l.dropLast ~r way) : IsCircle r (close way) ∧ SameCircle l (close way) := by
  obtain ⟨own, a, rfl, hhead, hnodup, hchain⟩ := h
  rw [List.dropLast_concat] at hrotated
  have hne : way ≠ [] := by
    rintro rfl
    rw [List.isRotated_nil_iff.1 hrotated] at hhead
    cases hhead
  obtain ⟨first, hfirst⟩ : ∃ first, way.head? = some first := ⟨_, List.head?_eq_some_head hne⟩
  have hclose : close way = way ++ [first] := by rw [close, hfirst]; rfl
  rw [hclose]
  refine ⟨⟨way, first, rfl, hfirst, hrotated.nodup_iff.1 hnodup, ?_⟩, ?_⟩
  · rw [isChain_iff_steps, steps_of_closed hhead] at hchain
    rw [isChain_iff_steps, steps_of_closed hfirst]
    exact fun step hstep => hchain step ((zip_rotate_isRotated hrotated).mem_iff.2 hstep)
  · rw [SameCircle, List.dropLast_concat, List.dropLast_concat]
    exact hrotated

end Graph

end Playbook
