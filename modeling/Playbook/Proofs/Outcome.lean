import Playbook.Proofs.Work

/-!
# What works leave behind

`Ends` says what a work has given and in what state it leaves things when it
comes to its end. Nothing is said of a work that is given up.
-/

namespace Playbook.Work

variable {σ τ α β : Type} {I I' : σ → Prop} {J J' : α → σ → Prop} {K : β → σ → Prop}

/-- From a state with `I` a work gives and leaves only what has `J`. -/
def Ends (I : σ → Prop) (J : α → σ → Prop) (work : Work σ α) : Prop :=
  ∀ s log a t log', I s → exec work (s, log) = (.ok a, t, log') → J a t

namespace Ends

theorem mono {work : Work σ α} (h : Ends I J work) (hI : ∀ s, I' s → I s)
    (hJ : ∀ a s, J a s → J' a s) : Ends I' J' work :=
  fun s log a t log' hs hexec => hJ a t (h s log a t log' (hI s hs) hexec)

/-- What does not depend on the state is known before. -/
theorem assuming {p : Prop} {work : Work σ α} (h : p → Ends I J work) :
    Ends (fun s => p ∧ I s) J work :=
  fun s log a t log' hs hexec => h hs.1 s log a t log' hs.2 hexec

/-- A state in which a work starts may be kept in mind. -/
theorem fixed {work : Work σ α} (h : ∀ s, I s → Ends (fun t => t = s) J work) : Ends I J work :=
  fun s log a t log' hs hexec => h s hs s log a t log' rfl hexec

/-- Nothing is said of how a work ends. -/
theorem any (work : Work σ α) : Ends I (fun _ _ => True) work := fun _ _ _ _ _ _ _ => trivial

theorem and {K : α → σ → Prop} {work : Work σ α} (h : Ends I J work) (h' : Ends I K work) :
    Ends I (fun a s => J a s ∧ K a s) work :=
  fun s log a t log' hs hexec => ⟨h s log a t log' hs hexec, h' s log a t log' hs hexec⟩

theorem pure {a : α} (h : ∀ s, I s → J a s) : Ends I J (Pure.pure a : Work σ α) := by
  rintro s log _ _ _ hs ⟨⟩
  exact h s hs

theorem throw (fault : Fault) : Ends I J (throw fault : Work σ α) := by
  rintro s log a t log' - ⟨⟩

theorem attempt_eq {result : Attempt α} :
    Ends I (fun a s => result = .ok a ∧ I s) (attempt result) := by
  intro s log a t log' hs hexec
  obtain ⟨hresult, hstate⟩ := of_exec_attempt_ok hexec
  cases hstate
  exact ⟨hresult, hs⟩

theorem attempt {result : Attempt α} : Ends I (fun _ => I) (attempt result) :=
  attempt_eq.mono (fun _ hs => hs) fun _ _ hs => hs.2

theorem setState {s : σ} (h : I' s) : Ends I (fun _ => I') (setState s) := by
  rintro _ log _ _ _ - ⟨⟩
  exact h

theorem change {f : σ → σ} (h : ∀ s, I s → I' (f s)) : Ends I (fun _ => I') (change f) := by
  rintro s log _ _ _ hs ⟨⟩
  exact h s hs

theorem tell (entries : Log) : Ends I (fun _ => I) (tell entries) := by
  rintro s log _ _ _ hs ⟨⟩
  exact hs

theorem bind {work : Work σ α} {next : α → Work σ β} (h : Ends I J work)
    (hnext : ∀ a, Ends (J a) K (next a)) : Ends I K (work >>= next) := by
  intro s log b t log' hs hexec
  obtain ⟨a, ⟨mid, midLog⟩, hwork, hrest⟩ := of_exec_bind_ok hexec
  exact hnext a mid midLog b t log' (h s log a mid midLog hs hwork) hrest

/-- The state is known once it has been asked for. -/
theorem get {next : σ → Work σ β} (h : ∀ s, I s → Ends (fun t => t = s) K (next s)) :
    Ends I K (state >>= next) := by
  intro s log b t log' hs hexec
  rw [exec_bind_ok (exec_state s log)] at hexec
  exact h s hs s log b t log' rfl hexec

theorem ite {p : Prop} [Decidable p] {work other : Work σ α} (h : p → Ends I J work)
    (h' : ¬ p → Ends I J other) : Ends I J (if p then work else other) := by
  split
  · exact h ‹p›
  · exact h' ‹¬ p›

/-- A work that is left for another one under a condition, or given up. -/
theorem narrowed {p q r : Prop} [Decidable p] [Decidable q] [Decidable r] {fault : Fault}
    {other rest : Work σ α} (hother : p → r → Ends I J other)
    (h : ¬ (p ∧ r) → Ends I J rest) :
    Ends I J (if p then
      if q then (MonadExcept.throw fault : Work σ Unit) >>= fun _ => if r then other else rest
      else if r then other else rest
      else rest) := by
  have hinner (hp : p) : Ends I J (if r then other else rest) :=
    ite (hother hp) fun hr => h fun hboth => hr hboth.2
  refine ite (fun hp => ite (fun _ => ?_) fun _ => hinner hp) fun hp => h fun hboth => hp hboth.1
  exact bind (throw fault) fun _ => hinner hp

theorem within {part : σ → τ} {put : τ → σ → σ} {work : Work τ α} {L : τ → Prop}
    {M : α → τ → Prop} (h : Ends L M work) (hpart : ∀ s, I s → L (part s))
    (hput : ∀ s a t, I s → M a t → J a (put t s)) : Ends I J (within part put work) := by
  intro s log a t log' hs hexec
  obtain ⟨u, hwork, rfl⟩ := of_exec_within_ok hexec
  exact hput s a u hs (h _ log a u log' (hpart s hs) hwork)

/-- A work whose fault is caught, on a part of the state that does not matter. -/
theorem caughtWithin {part : σ → τ} {put : τ → σ → σ} (work : Work τ α)
    (hput : ∀ s t, I s → I' (put t s)) :
    Ends I (fun _ => I') (caught (Work.within part put work)) := by
  intro s log a t log' hs hexec
  rw [exec_caught, exec_within] at hexec
  cases hexec
  exact hput s _ hs

/-- A work on a part of the state that does not matter. -/
theorem anyWithin {part : σ → τ} {put : τ → σ → σ} (work : Work τ α)
    (hput : ∀ s t, I s → I' (put t s)) : Ends I (fun _ => I') (Work.within part put work) := by
  intro s log a t log' hs hexec
  obtain ⟨u, -, rfl⟩ := of_exec_within_ok hexec
  exact hput s u hs

theorem foldlM {l : List α} {f : β → α → Work σ β} {L : β → σ → Prop}
    (h : ∀ b, ∀ a ∈ l, Ends (L b) L (f b a)) {b : β} (hb : ∀ s, I s → L b s) :
    Ends I L (l.foldlM f b) := by
  induction l generalizing b I with
  | nil => exact pure hb
  | cons a l ih =>
      rw [List.foldlM_cons]
      refine bind ((h b a List.mem_cons_self).mono hb fun _ _ h => h) fun b' => ?_
      exact ih (fun c other hother => h c other (List.mem_cons_of_mem _ hother)) fun _ h => h

/-- A pass over a list, with what holds when a part of it has been gone through. -/
theorem foldlM_along {l : List α} {f : β → α → Work σ β} {L : List α → β → σ → Prop}
    (h : ∀ past a rest, l = past ++ a :: rest → ∀ b, Ends (L past b) (L (past ++ [a])) (f b a))
    {b : β} : Ends (L [] b) (L l) (l.foldlM f b) := by
  have hrest (rest past : List α) (hl : l = past ++ rest) (b : β) :
      Ends (L past b) (L l) (rest.foldlM f b) := by
    induction rest generalizing past b with
    | nil =>
        rw [hl, List.append_nil]
        exact pure fun _ hs => hs
    | cons a rest ih =>
        rw [List.foldlM_cons]
        refine bind (h past a rest hl b) fun b' => ?_
        exact ih (past ++ [a]) (by rw [hl, List.append_assoc]; rfl) b'
  exact hrest l [] rfl b

end Ends

end Playbook.Work
