import Playbook.Proofs.Work

/-!
# When a work succeeds

`SucceedsIff` names the condition under which an attempt or a work gives
something. Where the condition fails the fault is not one for which a single
recipe is passed over.
-/

namespace Playbook

variable {σ τ α β : Type} {C D : Prop} {Q : α → Prop} {R : β → Prop}

/-- A fault that is no reason to pass over a recipe. -/
def Fault.Aborts (fault : Fault) : Prop := ∀ recipe reason, fault ≠ .uncompilable recipe reason

/-! ## Attempts -/

namespace Attempt

/-- The attempt gives something with `Q` where `C` holds, and else ends in a fault that aborts. -/
structure SucceedsIff (C : Prop) (Q : α → Prop) (result : Attempt α) : Prop where
  given : C → ∃ a, result = .ok a ∧ Q a
  refused : ¬ C → ∃ fault, result = .error fault ∧ fault.Aborts

namespace SucceedsIff

variable {result : Attempt α} {next : α → Attempt β}

theorem mono {Q' : α → Prop} (h : SucceedsIff C Q result) (hiff : C ↔ D)
    (himp : ∀ a, Q a → Q' a) : SucceedsIff D Q' result where
  given hD := by
    obtain ⟨a, hresult, ha⟩ := h.given (hiff.2 hD)
    exact ⟨a, hresult, himp a ha⟩
  refused hD := h.refused (mt hiff.1 hD)

theorem iff (h : SucceedsIff C Q result) (hiff : C ↔ D) : SucceedsIff D Q result :=
  h.mono hiff fun _ ha => ha

theorem ok {a : α} (h : Q a) : SucceedsIff True Q (.ok a) :=
  ⟨fun _ => ⟨a, rfl, h⟩, fun hnot => absurd trivial hnot⟩

theorem of_ok {a : α} (hresult : result = .ok a) (h : Q a) : SucceedsIff True Q result :=
  hresult ▸ ok h

theorem error {fault : Fault} (h : fault.Aborts) : SucceedsIff False Q (.error fault) :=
  ⟨False.elim, fun _ => ⟨fault, rfl, h⟩⟩

theorem bind (h : SucceedsIff C Q result) (hnext : ∀ a, Q a → SucceedsIff D R (next a)) :
    SucceedsIff (C ∧ D) R (result >>= next) := by
  constructor
  case given =>
    rintro ⟨hC, hD⟩
    obtain ⟨a, rfl, ha⟩ := h.given hC
    exact (hnext a ha).given hD
  case refused =>
    intro hnot
    by_cases hC : C
    · obtain ⟨a, rfl, ha⟩ := h.given hC
      exact (hnext a ha).refused fun hD => hnot ⟨hC, hD⟩
    · obtain ⟨fault, rfl, habort⟩ := h.refused hC
      exact ⟨fault, rfl, habort⟩

/-- An attempt that succeeds anyway, before another. -/
theorem andThen (h : SucceedsIff True Q result) (hnext : ∀ a, Q a → SucceedsIff D R (next a)) :
    SucceedsIff D R (result >>= next) :=
  (h.bind hnext).iff (by simp)

theorem mapM {l : List α} {f : α → Attempt β} {C : α → Prop}
    (h : ∀ a ∈ l, SucceedsIff (C a) R (f a)) :
    SucceedsIff (∀ a ∈ l, C a) (fun found => ∀ b ∈ found, R b) (l.mapM f) := by
  induction l with
  | nil => exact (ok (by simp)).iff (by simp)
  | cons a l ih =>
      have hrest := ih fun other hother => h other (List.mem_cons_of_mem _ hother)
      rw [List.mapM_cons]
      refine ((h a List.mem_cons_self).bind fun b hb => hrest.bind fun found hfound =>
        ok (Q := fun found => ∀ b ∈ found, R b) ?_).iff (by simp)
      exact List.forall_mem_cons.2 ⟨hb, hfound⟩

end SucceedsIff

end Attempt

/-! ## Works -/

namespace Work

variable {I : σ → Prop} {work : Work σ α} {next : α → Work σ β}

/-- From every state with `I`: the attempt that the work makes succeeds as said, and `I` stays. -/
def SucceedsIff (I : σ → Prop) (C : Prop) (Q : α → Prop) (work : Work σ α) : Prop :=
  ∀ s log, I s → Attempt.SucceedsIff C Q (exec work (s, log)).1 ∧
    (C → I (exec work (s, log)).2.1)

namespace SucceedsIff

theorem mono {Q' : α → Prop} (h : SucceedsIff I C Q work) (hiff : C ↔ D)
    (himp : ∀ a, Q a → Q' a) : SucceedsIff I D Q' work := by
  intro s log hs
  obtain ⟨hresult, hend⟩ := h s log hs
  exact ⟨hresult.mono hiff himp, fun hD => hend (hiff.2 hD)⟩

theorem iff (h : SucceedsIff I C Q work) (hiff : C ↔ D) : SucceedsIff I D Q work :=
  h.mono hiff fun _ ha => ha

theorem attempt {result : Attempt α} (h : result.SucceedsIff C Q) :
    SucceedsIff I C Q (attempt result) := fun _ _ hs => ⟨h, fun _ => hs⟩

theorem pure {a : α} (h : Q a) : SucceedsIff I True Q (Pure.pure a) := attempt (.ok h)

theorem tell (entries : Log) : SucceedsIff I True (fun _ => True) (tell entries) :=
  fun _ _ hs => ⟨.ok trivial, fun _ => hs⟩

theorem bind (h : SucceedsIff I C Q work) (hnext : ∀ a, Q a → SucceedsIff I D R (next a)) :
    SucceedsIff I (C ∧ D) R (work >>= next) := by
  intro s log hs
  obtain ⟨hresult, hend⟩ := h s log hs
  rw [exec_bind]
  generalize exec work (s, log) = outcome at hresult hend ⊢
  obtain ⟨result, t, log'⟩ := outcome
  by_cases hC : C
  · obtain ⟨a, hok, ha⟩ := hresult.given hC
    obtain rfl : result = .ok a := hok
    obtain ⟨hresult', hend'⟩ := hnext a ha t log' (hend hC)
    exact ⟨hresult'.iff (by simp [hC]), fun hboth => hend' hboth.2⟩
  · obtain ⟨fault, herror, habort⟩ := hresult.refused hC
    obtain rfl : result = .error fault := herror
    exact ⟨(Attempt.SucceedsIff.error habort).iff (by simp [hC]), fun hboth => absurd hboth.1 hC⟩

/-- A work that succeeds anyway, before another. -/
theorem andThen (h : SucceedsIff I True Q work) (hnext : ∀ a, Q a → SucceedsIff I D R (next a)) :
    SucceedsIff I D R (work >>= next) :=
  (h.bind hnext).iff (by simp)

theorem within {part : σ → τ} {put : τ → σ → σ} {work : Work τ α} {J : τ → Prop}
    (h : SucceedsIff J C Q work) (hpart : ∀ s, I s → J (part s))
    (hput : ∀ s t, I s → J t → I (put t s)) : SucceedsIff I C Q (within part put work) := by
  intro s log hs
  obtain ⟨hresult, hend⟩ := h (part s) log (hpart s hs)
  rw [exec_within]
  exact ⟨hresult, fun hC => hput s _ hs (hend hC)⟩

theorem mapM {l : List α} {f : α → Work σ β} {C : α → Prop}
    (h : ∀ a ∈ l, SucceedsIff I (C a) R (f a)) :
    SucceedsIff I (∀ a ∈ l, C a) (fun found => ∀ b ∈ found, R b) (l.mapM f) := by
  induction l with
  | nil => exact (pure (by simp)).iff (by simp)
  | cons a l ih =>
      have hrest := ih fun other hother => h other (List.mem_cons_of_mem _ hother)
      rw [List.mapM_cons]
      refine ((h a List.mem_cons_self).bind fun b hb => hrest.bind fun found hfound =>
        pure (Q := fun found => ∀ b ∈ found, R b) ?_).iff (by simp)
      exact List.forall_mem_cons.2 ⟨hb, hfound⟩

end SucceedsIff

end Work

end Playbook
