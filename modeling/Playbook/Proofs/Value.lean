import Mathlib.Data.List.Basic
import Playbook.Value

/-!
# Equality of values

Every value is the same as itself, whatever it holds.
-/

namespace Playbook.Value

mutual

@[simp] theorem same_refl : ∀ v : Value, same v v = true
  | .list items => by rw [same]; exact sameItems_refl items
  | .tuple items => by rw [same]; exact sameItems_refl items
  | .set members => by
      rw [same, Bool.and_eq_true]
      exact ⟨by simp, membersIn_of_subset members members fun _ h => h⟩
  | .mapping entries => by
      rw [same, Bool.and_eq_true]
      exact ⟨by simp, entriesIn_of_subset entries entries fun _ h => h⟩
  | .cycle name content => by
      rw [same, Bool.and_eq_true]
      exact ⟨by simp, same_refl content⟩
  | .again name => by rw [same]; simp
  | .null | .bool _ | .int _ | .float _ | .text _ | .bytes _ | .day _ | .instant _ => by
      rw [same] <;> simp [samePlain, sameNumber?, Binary64.same, Instant.same]

theorem sameItems_refl : ∀ items : List Value, sameItems items items = true
  | [] => by rw [sameItems]
  | item :: items => by
      rw [sameItems, Bool.and_eq_true]
      exact ⟨same_refl item, sameItems_refl items⟩

theorem membersIn_of_subset : ∀ members others : List Value,
    (∀ member ∈ members, member ∈ others) → membersIn members others = true
  | [], _, _ => by rw [membersIn]
  | member :: members, others, h => by
      rw [membersIn, Bool.and_eq_true, List.any_eq_true]
      exact ⟨⟨member, h member (by simp), same_refl member⟩,
        membersIn_of_subset members others fun other hother => h other (by simp [hother])⟩

theorem entriesIn_of_subset : ∀ entries others : List (Value × Value),
    (∀ entry ∈ entries, entry ∈ others) → entriesIn entries others = true
  | [], _, _ => by rw [entriesIn]
  | (key, value) :: entries, others, h => by
      rw [entriesIn, Bool.and_eq_true, List.any_eq_true]
      refine ⟨⟨(key, value), h _ (by simp), ?_⟩,
        entriesIn_of_subset entries others fun other hother => h other (by simp [hother])⟩
      rw [same_refl key, same_refl value]
      rfl

end

/-- Only a text is the same as a text. -/
theorem eq_of_same_text {v : Value} {s : String} (h : v.same (.text s) = true) : v = .text s := by
  cases v with
  | text t =>
      rw [same] at h <;> simp_all [samePlain]
  | _ => rw [same] at h <;> simp_all [samePlain, sameNumber?]

theorem eq_of_text_same {v : Value} {s : String} (h : (Value.text s).same v = true) :
    v = .text s := by
  cases v with
  | text t =>
      rw [same] at h <;> simp_all [samePlain]
  | _ => rw [same] at h <;> simp_all [samePlain, sameNumber?]

/-- Values that are the same stand for the same text. -/
theorem same_text_congr {v w : Value} (h : v.same w = true) (s : String) :
    v.same (.text s) = w.same (.text s) := by
  rw [Bool.eq_iff_iff]
  constructor
  · intro hv
    obtain rfl := eq_of_same_text hv
    rw [eq_of_text_same h, same_refl]
  · intro hw
    obtain rfl := eq_of_same_text hw
    rw [eq_of_same_text h, same_refl]

end Playbook.Value
