import Mathlib.Data.List.Lex
import Mathlib.Data.String.Basic
import Playbook.Path
import Playbook.Proofs.Inserted

/-!
# Order of paths

Paths below one place are sorted in one way only, so that a further path comes
in somewhere between the others.
-/

namespace Playbook.Path

theorem listLess_iff (xs ys : List String) : listLess xs ys ↔ xs < ys := by
  induction xs generalizing ys with
  | nil => cases ys <;> simp [listLess]
  | cons x xs ih =>
      cases ys with
      | nil => simp [listLess]
      | cons y ys =>
          by_cases hxy : x = y
          · simp [listLess, hxy, ih]
          · simp [listLess, hxy, List.cons_lt_cons_iff]

theorem not_listLess_iff (p q : Path) : (!listLess q.names p.names) ↔ p.names ≤ q.names := by
  rw [Bool.not_eq_true', ← Bool.not_eq_true, listLess_iff, not_lt]

theorem sort_perm (paths : List Path) : (sort paths).Perm paths := List.mergeSort_perm _ _

theorem mem_sort {paths : List Path} {path : Path} : path ∈ sort paths ↔ path ∈ paths :=
  (sort_perm paths).mem_iff

theorem pairwise_sort (paths : List Path) :
    (sort paths).Pairwise fun p q => p.names ≤ q.names := by
  have hsorted := @List.pairwise_mergeSort Path (fun p q => !listLess q.names p.names)
    (fun p q r hpq hqr => by
      rw [not_listLess_iff] at *
      exact hpq.trans hqr)
    (fun p q => by
      rw [Bool.or_eq_true, not_listLess_iff, not_listLess_iff]
      exact le_total p.names q.names) paths
  exact hsorted.imp fun h => (not_listLess_iff _ _).1 h

theorem sort_eq_self {paths : List Path} (h : paths.Pairwise fun p q => p.names ≤ q.names) :
    sort paths = paths :=
  List.mergeSort_of_pairwise (h.imp fun hle => (not_listLess_iff _ _).2 hle)

/-- One more path from the same start comes in between the others. -/
theorem sort_inserted {path : Path} {paths paths' : List Path}
    (h : paths'.Perm (path :: paths)) {start : Start} (hstart : ∀ p ∈ paths', p.start = start) :
    Inserted path (sort paths) (sort paths') := by
  refine .of_perm ?_ (pairwise_sort paths) (pairwise_sort paths') ?_
  · exact (sort_perm paths').trans (h.trans ((sort_perm paths).symm.cons path))
  · intro p hp q hq hpq hqp
    have hnames := le_antisymm hpq hqp
    have hstarts := (hstart p (mem_sort.1 hp)).trans (hstart q (mem_sort.1 hq)).symm
    cases p
    cases q
    simp_all

theorem sort_eq_of_perm {paths paths' : List Path} (h : paths'.Perm paths) {start : Start}
    (hstart : ∀ p ∈ paths', p.start = start) : sort paths' = sort paths := by
  refine ((sort_perm paths').trans (h.trans (sort_perm paths).symm)).eq_of_pairwise ?_
    (pairwise_sort paths') (pairwise_sort paths)
  intro p q hp hq hpq hqp
  have hnames := le_antisymm hpq hqp
  have hstarts := (hstart p (mem_sort.1 hp)).trans
    (hstart q (h.mem_iff.2 (mem_sort.1 hq))).symm
  cases p
  cases q
  simp_all

end Playbook.Path
