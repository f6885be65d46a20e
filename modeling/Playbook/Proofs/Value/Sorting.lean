import Mathlib.Data.List.Nodup
import Mathlib.Data.Set.List
import Mathlib.Data.String.Basic
import Playbook.Store

/-!
# Texts in order

Texts have one order, so that texts that differ are listed in a strictly
increasing one, and so are the ids of a collection.
-/

namespace Playbook

namespace Value

theorem precedes_text (s t : String) : precedes (.text s) (.text t) = decide (s < t) := by
  cases h : decide (s < t) <;> simp only [precedes, less?, h] <;> rfl

theorem sorted?_texts (texts : List String) : sorted? (texts.map .text) =
    some ((texts.mergeSort fun s t => !decide (t < s)).map .text) := by
  unfold sorted?
  split
  · rename_i hshort
    rw [List.length_map] at hshort
    rcases texts with _ | ⟨s, _ | ⟨t, texts⟩⟩
    · simp
    · simp
    · rw [List.length_cons, List.length_cons] at hshort
      omega
  · rw [if_neg (by simp [less?]), if_neg (by simp [isNan])]
    congr 1
    exact (List.map_mergeSort fun s _ t _ => by rw [precedes_text]).symm

/-- Texts that differ are listed in order, and none is lost. -/
theorem exists_sorted?_texts {texts : List String} (distinct : texts.Nodup) :
    ∃ sorted : List String, sorted? (texts.map .text) = some (sorted.map .text) ∧
      sorted.Perm texts ∧ sorted.Pairwise (· < ·) := by
  have hle (s t : String) : (!decide (t < s)) = true ↔ s ≤ t := by
    rw [Bool.not_eq_true', decide_eq_false_iff_not, not_lt]
  have hsorted : (texts.mergeSort fun s t => !decide (t < s)).Pairwise (· ≤ ·) := by
    refine (List.pairwise_mergeSort (fun a b c hab hbc => ?_) (fun a b => ?_) texts).imp
      fun h => (hle _ _).1 h
    · exact (hle a c).2 (((hle a b).1 hab).trans ((hle b c).1 hbc))
    · rw [Bool.or_eq_true, hle, hle]
      exact le_total a b
  have hperm := List.mergeSort_perm texts fun s t => !decide (t < s)
  exact ⟨_, sorted?_texts texts, hperm,
    (hsorted.and (hperm.nodup_iff.2 distinct)).imp fun h => lt_of_le_of_ne h.1 h.2⟩

end Value

/-- Ids that are texts are listed in strictly increasing order. -/
theorem Store.exists_sorted {α : Type} {items : Collection.Items α} {listed : List Value}
    (texts : ∀ item ∈ items, ∃ id, item.1 = .text id) (distinct : (items.map (·.1)).Nodup)
    (h : ids items = .ok listed) :
    ∃ sorted : List String, listed = sorted.map .text ∧ sorted.Pairwise (· < ·) ∧
      ∀ id, id ∈ sorted ↔ Value.text id ∈ items.map (·.1) := by
  have hrange : items.map (·.1) ∈ Set.range (List.map Value.text) := by
    rw [Set.range_list_map]
    intro id hid
    obtain ⟨item, hitem, rfl⟩ := List.mem_map.1 hid
    obtain ⟨text, htext⟩ := texts item hitem
    exact ⟨text, htext.symm⟩
  obtain ⟨texts, htexts⟩ := hrange
  obtain ⟨sorted, hsort, hperm, increasing⟩ :=
    Value.exists_sorted?_texts (List.Nodup.of_map Value.text (htexts ▸ distinct))
  rw [ids, ← htexts, hsort] at h
  refine ⟨sorted, (Except.ok.inj h).symm, increasing, fun id => ?_⟩
  rw [hperm.mem_iff, ← htexts, List.mem_map_of_injective fun _ _ => Value.text.inj]

end Playbook
