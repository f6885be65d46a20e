import Playbook.Proofs.Messages
import Playbook.Recipe.Compilation

/-!
# Messages of a compilation

A compilation reports the gaps and the unknown steps of the loop, and what
comes up as its steps are lowered.
-/

namespace Playbook

open Work

theorem Partition.mem_of_ofRecipe {recipe : Recipe} {partition : Partition} {reports : Log}
    (h : ofRecipe recipe = .ok (partition, reports)) {step : Step}
    (hstep : step ∈ partition.preLoop ∨ step ∈ partition.loopBody ∨ step ∈ partition.postLoop) :
    step ∈ recipe.steps := by
  have hwhole (hpart : partition = whole recipe.steps) : step ∈ recipe.steps := by
    subst hpart
    simpa [whole] using hstep
  rw [ofRecipe] at h
  split at h
  · cases h
    exact hwhole rfl
  · split at h
    · cases h
      exact hwhole rfl
    · split at h
      · cases h
      · simp only at h
        split at h
        · cases h
          exact hwhole rfl
        · cases h
          rcases hstep with hstep | hstep | hstep
          · exact List.mem_of_mem_take hstep
          · obtain ⟨entry, hentry, rfl⟩ := List.mem_map.1 hstep
            have hrange := List.mem_of_mem_filter hentry
            exact List.fst_mem_of_mem_zipIdx (List.mem_of_mem_take (List.mem_of_mem_drop hrange))
          · exact List.mem_of_mem_drop hstep

theorem Partition.loopBody_of_none {recipe : Recipe} {partition : Partition} {reports : Log}
    (h : ofRecipe recipe = .ok (partition, reports)) (hloop : recipe.loop = none) :
    partition.loopBody = [] := by
  rw [ofRecipe, hloop] at h
  cases h
  rfl

namespace Setting

variable {P : LogEntry → Prop} {I : Run → Prop} {setting : Setting} {recipe : Recipe}

/-- Whatever step of a recipe is lowered for a backend, only messages with `P` are written. -/
def LowersWith (P : LogEntry → Prop) (I : Run → Prop) (setting : Setting) (recipe : Recipe) :
    Prop :=
  ∀ step ∈ recipe.steps, ∀ (index number : Int) (backend : Backend),
    Writes P I I (fun _ => True) (setting.lowerStep recipe step index number backend)

theorem LowersWith.group (h : LowersWith P I setting recipe) (backend : Backend)
    {steps : List Step} (hsteps : ∀ step ∈ steps, step ∈ recipe.steps) :
    Writes P I I (fun _ => True) (setting.lowerGroup recipe steps backend) := by
  unfold lowerGroup
  refine (Writes.mapM (R := fun _ => True) fun entry hentry => ?_).bind fun groups _ => Writes.pure trivial
  exact h entry.1 (hsteps _ (List.fst_mem_of_mem_zipIdx hentry)) _ _ backend

theorem LowersWith.loop (h : LowersWith P I setting recipe) (backend : Backend)
    {steps : List Step} (hsteps : ∀ step ∈ steps, step ∈ recipe.steps) :
    Writes P I I (fun _ => True) (setting.lowerLoop recipe steps backend) := by
  unfold lowerLoop
  cases recipe.loop with
  | none => exact Writes.pure trivial
  | some loop =>
      refine Writes.ite (fun _ => Writes.pure trivial) fun _ => ?_
      refine (Writes.attempt fun _ _ => trivial).bind fun _ _ => ?_
      exact (h.group backend hsteps).bind fun _ _ => Writes.pure trivial

theorem LowersWith.compile (h : LowersWith P I setting recipe)
    (hreports : ∀ partition reports, Partition.ofRecipe recipe = .ok (partition, reports) →
      ∀ entry ∈ reports, P entry) (tool : Value) (time : String) :
    Writes P I I (fun _ => True) (setting.compile recipe tool time) := by
  have hscript : Writes P I I (fun _ => True) (setting.script recipe tool time) := by
    unfold script
    refine Writes.guarded (Writes.attempt fun _ _ => trivial) (fun _ => Writes.throw _) ?_
    refine (Writes.attempt fun _ _ => trivial).bind fun backend _ => ?_
    refine (Writes.attempt fun found hfound => hfound).bind ?_
    rintro ⟨partition, reports⟩ hpartition
    have hmem := fun step => @Partition.mem_of_ofRecipe recipe partition reports hpartition step
    refine (Writes.tell (hreports partition reports hpartition)).bind fun _ _ => ?_
    refine Writes.stopped (Writes.throw _) ?_
    refine (Writes.attempt fun _ _ => trivial).bind fun header _ => ?_
    refine (h.group backend fun step hstep => hmem step (.inl hstep)).bind fun before _ => ?_
    refine (h.loop backend fun step hstep => hmem step (.inr (.inl hstep))).bind fun loop _ => ?_
    refine (h.group backend fun step hstep => hmem step (.inr (.inr hstep))).bind fun behind _ => ?_
    exact Writes.pure trivial
  unfold Setting.compile
  exact hscript.bind fun nodes _ => Writes.attempt fun _ _ => trivial

end Setting

end Playbook
