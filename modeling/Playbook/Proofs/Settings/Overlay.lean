import Playbook.Proofs.Settings.Joining

/-!
# Overlays of values that may hold themselves

Joining two values comes to an end if one of them at most holds itself. Then
an overlay is what one level of it says: joined entries, a united list, or the
upper value in place of the lower one, whatever depth it was computed to.
-/

namespace Playbook.Value

open Entries (joinEntries)

/-- Tidy values of which one at most holds itself, so that joining them comes to an end. -/
structure Joinable (lower upper : Value) : Prop where
  lowerTidy : lower.Tidy
  upperTidy : upper.Tidy
  grounded : lower.Grounded ∨ upper.Grounded

/-- One level of an overlay. -/
def joinWith (join : Value → Value → Value) (lower upper : Value) : Value :=
  match lower.opened, upper.opened with
  | .mapping es, .mapping fs => .mapping (joinEntries join es fs)
  | .list xs, .list ys => .list (addMissing xs ys)
  | _, _ => upper

/-- What an overlay tells apart: mappings, lists and anything else. -/
inductive Shape where
  | mapping
  | list
  | other

def shape (v : Value) : Shape :=
  match v.opened with
  | .mapping _ => .mapping
  | .list _ => .list
  | _ => .other

variable {join join' : Value → Value → Value} {lower upper v : Value} {es fs : Entries}
  {depth : Nat}

theorem shape_eq_mapping_iff : v.shape = .mapping ↔ ∃ es, v.opened = .mapping es := by
  unfold shape
  cases v.opened <;> simp

theorem shape_eq_list_iff : v.shape = .list ↔ ∃ items, v.opened = .list items := by
  unfold shape
  cases v.opened <;> simp

/-! ## Held values -/

theorem Tidy.of_opened (h : v.Tidy) (hes : v.opened = .mapping es) :
    AreKeys (es.map Prod.fst) ∧ ∀ e ∈ es, e.2.Tidy :=
  tidy_mapping.1 (hes ▸ h.opened)

theorem Tidy.of_list {items : List Value} (h : v.Tidy) (hitems : v.opened = .list items) :
    ∀ x ∈ items, x.Tidy :=
  tidy_list.1 (hitems ▸ h.opened)

theorem Grounded.of_opened (h : v.Grounded) (hes : v.opened = .mapping es) :
    v = .mapping es ∧ ∀ e ∈ es, e.2.Grounded := by
  have hv : v = .mapping es := h.opened.symm.trans hes
  exact ⟨hv, grounded_mapping.1 (hv ▸ h)⟩

theorem Joinable.held (h : Joinable lower upper) (hes : lower.opened = .mapping es)
    (hfs : upper.opened = .mapping fs) {e f : Value × Value} (he : e ∈ es) (hf : f ∈ fs) :
    Joinable e.2 f.2 where
  lowerTidy := (h.lowerTidy.of_opened hes).2 e he
  upperTidy := (h.upperTidy.of_opened hfs).2 f hf
  grounded := h.grounded.imp (fun h => (h.of_opened hes).2 e he) fun h => (h.of_opened hfs).2 f hf

theorem height_lt_of_mem {entry : Value × Value} (h : entry ∈ es) :
    entry.2.height < (Value.mapping es).height := by
  rw [height, Nat.lt_succ_iff]
  induction es with
  | nil => cases h
  | cons first es ih =>
      rw [heightOfEntries]
      rcases List.mem_cons.1 h with rfl | h
      · exact Nat.le_max_left _ _
      · exact Nat.le_trans (ih h) (Nat.le_max_right _ _)

/-! ## One level -/

theorem joinWith_congr (hlower : lower.Tidy) (hupper : upper.Tidy)
    (h : ∀ es fs, lower.opened = .mapping es → upper.opened = .mapping fs →
      ∀ e ∈ es, ∀ f ∈ fs, join e.2 f.2 = join' e.2 f.2) :
    joinWith join lower upper = joinWith join' lower upper := by
  unfold joinWith
  split
  · rename_i es fs hes hfs
    rw [Entries.joinEntries_congr (hlower.of_opened hes).1 (hupper.of_opened hfs).1
      (h es fs hes hfs)]
  · rfl
  · rfl

theorem overlayWithin_succ (depth : Nat) (lower upper : Value) :
    overlayWithin (depth + 1) lower upper = joinWith (overlayWithin depth) lower upper := rfl

theorem overlayEntries_eq (es fs : Entries) :
    overlayEntries es fs = joinEntries overlay es fs := by
  induction fs generalizing es with
  | nil => rfl
  | cons f fs ih => exact ih _

theorem overlay_eq_of_ne_cycle (h : ∀ name content, upper ≠ .cycle name content) :
    overlay lower upper = joinWith overlay lower upper := by
  unfold joinWith
  cases upper with
  | mapping fs =>
      rw [overlay]
      cases lower.opened with
      | mapping es => exact congrArg Value.mapping (overlayEntries_eq es fs)
      | _ => rfl
  | list ys =>
      rw [overlay]
      cases lower.opened <;> rfl
  | cycle name content => exact absurd rfl (h name content)
  | _ =>
      cases lower.opened <;> simp [overlay, opened]

section

variable (hgrounded : lower.Grounded) (hlower : lower.Tidy)
  (hheld : ∀ es, lower = .mapping es → ∀ e ∈ es, ∀ (upper : Value) (depth : Nat),
    upper.Tidy → e.2.height ≤ depth → overlayWithin depth e.2 upper = overlay e.2 upper)

include hgrounded hlower hheld

/-- As deep as the lower value is written is deep enough. -/
theorem overlayWithin_eq_joinWith (hupper : upper.Tidy) (hdepth : lower.height ≤ depth) :
    overlayWithin depth lower upper = joinWith overlay lower upper := by
  cases depth with
  | zero =>
      unfold joinWith
      rw [hgrounded.opened]
      cases lower with
      | mapping | list => cases hdepth
      | _ => rfl
  | succ depth =>
      rw [overlayWithin_succ]
      refine joinWith_congr hlower hupper fun es fs hes hfs e he f hf => ?_
      obtain rfl := (hgrounded.of_opened hes).1
      have hentry : e.2.height ≤ depth :=
        Nat.lt_succ_iff.1 (Nat.lt_of_lt_of_le (height_lt_of_mem he) hdepth)
      exact hheld es rfl e he f.2 depth ((hupper.of_opened hfs).2 f hf) hentry

theorem overlay_eq_of_held (hupper : upper.Tidy) :
    overlay lower upper = joinWith overlay lower upper := by
  by_cases hcycle : ∃ name content, upper = .cycle name content
  · obtain ⟨name, content, rfl⟩ := hcycle
    rw [overlay]
    exact overlayWithin_eq_joinWith hgrounded hlower hheld hupper (Nat.le_add_right _ _)
  · exact overlay_eq_of_ne_cycle fun name content h => hcycle ⟨name, content, h⟩

end

theorem overlayWithin_eq (hgrounded : lower.Grounded) (hlower : lower.Tidy) (hupper : upper.Tidy)
    (hdepth : lower.height ≤ depth) : overlayWithin depth lower upper = overlay lower upper := by
  induction hheight : lower.height using Nat.strong_induction_on
    generalizing lower upper depth with
  | _ height ih =>
      have hheld : ∀ es, lower = .mapping es → ∀ e ∈ es, ∀ (upper : Value) (depth : Nat),
          upper.Tidy → e.2.height ≤ depth →
          overlayWithin depth e.2 upper = overlay e.2 upper := by
        rintro es rfl e he upper depth hupper hdepth
        have hentry : e.2.height < height := hheight ▸ height_lt_of_mem he
        exact ih _ hentry (grounded_mapping.1 hgrounded e he) ((tidy_mapping.1 hlower).2 e he)
          hupper hdepth rfl
      rw [overlayWithin_eq_joinWith hgrounded hlower hheld hupper hdepth,
        overlay_eq_of_held hgrounded hlower hheld hupper]

namespace Joinable

theorem overlay_eq (h : Joinable lower upper) :
    overlay lower upper = joinWith overlay lower upper := by
  rcases h.grounded with hlower | hupper
  · refine overlay_eq_of_held hlower h.lowerTidy ?_ h.upperTidy
    rintro es rfl e he upper depth hupper hdepth
    exact overlayWithin_eq (grounded_mapping.1 hlower e he) ((tidy_mapping.1 h.lowerTidy).2 e he)
      hupper hdepth
  · refine overlay_eq_of_ne_cycle ?_
    rintro name content rfl
    exact hupper

/-- Induction over the values that meet each other under the keys of two joinable values. -/
@[elab_as_elim]
theorem induction {motive : ∀ lower upper, Joinable lower upper → Prop}
    (level : ∀ lower upper (h : Joinable lower upper),
      (∀ es fs (hes : lower.opened = .mapping es) (hfs : upper.opened = .mapping fs) e
        (he : e ∈ es) f (hf : f ∈ fs), motive e.2 f.2 (h.held hes hfs he hf)) →
      motive lower upper h)
    (h : Joinable lower upper) : motive lower upper h := by
  rcases h.grounded with hgrounded | hgrounded
  · induction hheight : lower.height using Nat.strong_induction_on
      generalizing lower upper with
    | _ height ih =>
        refine level lower upper h fun es fs hes hfs e he f hf => ?_
        obtain ⟨rfl, hheld⟩ := hgrounded.of_opened hes
        exact ih _ (hheight ▸ height_lt_of_mem he) _ (hheld e he) rfl
  · induction hheight : upper.height using Nat.strong_induction_on
      generalizing lower upper with
    | _ height ih =>
        refine level lower upper h fun es fs hes hfs e he f hf => ?_
        obtain ⟨rfl, hheld⟩ := hgrounded.of_opened hfs
        exact ih _ (hheight ▸ height_lt_of_mem hf) _ (hheld f hf) rfl

theorem overlay_mapping (h : Joinable lower upper) (hes : lower.opened = .mapping es)
    (hfs : upper.opened = .mapping fs) :
    lower.overlay upper = .mapping (joinEntries overlay es fs) := by
  rw [h.overlay_eq, joinWith, hes, hfs]

theorem overlay_list (h : Joinable lower upper) {xs ys : List Value}
    (hxs : lower.opened = .list xs) (hys : upper.opened = .list ys) :
    lower.overlay upper = .list (addMissing xs ys) := by
  rw [h.overlay_eq, joinWith, hxs, hys]

/-- Two mappings are joined, two lists united; else the upper value stays. -/
theorem overlay_cases (h : Joinable lower upper) :
    (∃ es fs, lower.opened = .mapping es ∧ upper.opened = .mapping fs ∧
      lower.overlay upper = .mapping (joinEntries overlay es fs)) ∨
    (∃ xs ys, lower.opened = .list xs ∧ upper.opened = .list ys ∧
      lower.overlay upper = .list (addMissing xs ys)) ∨
    (lower.shape = upper.shape → upper.shape = .other) ∧ lower.overlay upper = upper := by
  rw [h.overlay_eq, joinWith]
  unfold shape
  cases hlower : lower.opened with
  | mapping es =>
      cases hupper : upper.opened with
      | mapping fs => exact .inl ⟨es, fs, rfl, rfl, rfl⟩
      | _ => exact .inr (.inr ⟨by simp, rfl⟩)
  | list xs =>
      cases hupper : upper.opened with
      | list ys => exact .inr (.inl ⟨xs, ys, rfl, rfl, rfl⟩)
      | _ => exact .inr (.inr ⟨by simp, rfl⟩)
  | _ => exact .inr (.inr ⟨Eq.symm, rfl⟩)

theorem overlay_of_shape_other (h : Joinable lower upper) (hshape : upper.shape = .other) :
    lower.overlay upper = upper := by
  rcases h.overlay_cases with ⟨_, fs, _, hfs, _⟩ | ⟨_, ys, _, hys, _⟩ | ⟨_, heq⟩
  · cases hshape.symm.trans (shape_eq_mapping_iff.2 ⟨fs, hfs⟩)
  · cases hshape.symm.trans (shape_eq_list_iff.2 ⟨ys, hys⟩)
  · exact heq

theorem shape_overlay (h : Joinable lower upper) : (lower.overlay upper).shape = upper.shape := by
  rw [h.overlay_eq, joinWith]
  split
  · rename_i hfs
    rw [shape, shape, hfs]
    rfl
  · rename_i hys
    rw [shape, shape, hys]
    rfl
  · rfl

theorem tidy_overlay (h : Joinable lower upper) : (lower.overlay upper).Tidy := by
  induction h using Joinable.induction with
  | level lower upper h ih =>
      rw [h.overlay_eq, joinWith]
      split
      · rename_i es fs hes hfs
        obtain ⟨heskeys, hlower⟩ := h.lowerTidy.of_opened hes
        obtain ⟨hfskeys, hupper⟩ := h.upperTidy.of_opened hfs
        exact tidy_mapping.2 ⟨Entries.areKeys_joinEntries heskeys hfskeys,
          Entries.forall_joinEntries heskeys hfskeys hlower hupper (ih es fs hes hfs)⟩
      · rename_i xs ys hxs hys
        refine tidy_list.2 fun v hv => ?_
        rcases mem_addMissing hv with hv | hv
        · exact h.lowerTidy.of_list hxs v hv
        · exact h.upperTidy.of_list hys v hv
      · exact h.upperTidy

theorem grounded_overlay (h : Joinable lower upper) (hlower : lower.Grounded)
    (hupper : upper.Grounded) : (lower.overlay upper).Grounded := by
  induction h using Joinable.induction with
  | level lower upper h ih =>
      rw [h.overlay_eq, joinWith, hlower.opened, hupper.opened]
      split
      · rename_i es fs
        rw [grounded_mapping] at hlower hupper ⊢
        refine Entries.forall_joinEntries h.lowerTidy.1 h.upperTidy.1 hlower hupper
          fun e he f hf => ?_
        exact ih es fs rfl rfl e he f hf (hlower e he) (hupper f hf)
      · rename_i xs ys
        rw [grounded_list] at hlower hupper ⊢
        exact fun v hv => (mem_addMissing hv).elim (hlower v) (hupper v)
      · exact hupper

theorem overlay_left (h : Joinable lower upper) (hv : Joinable lower v) (hv' : Joinable upper v) :
    Joinable (lower.overlay upper) v where
  lowerTidy := h.tidy_overlay
  upperTidy := hv.upperTidy
  grounded := hv.grounded.elim (fun hlower => hv'.grounded.imp_left (h.grounded_overlay hlower))
    .inr

theorem overlay_right (h : Joinable lower upper) (hv : Joinable lower v)
    (hv' : Joinable upper v) : Joinable lower (upper.overlay v) where
  lowerTidy := h.lowerTidy
  upperTidy := hv'.tidy_overlay
  grounded := h.grounded.elim .inl fun hupper =>
    hv.grounded.imp_right (hv'.grounded_overlay hupper)

end Joinable

end Playbook.Value
