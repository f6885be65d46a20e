import Playbook.Proofs.Success

/-!
# Faults of attempts and works

`FailsBy` says by which faults an attempt may fail, and `Work.Fails` says so of
a work, in all states with an invariant, which it keeps. What aborts has no
fault that is a reason to pass over a recipe.
-/

namespace Playbook

variable {σ τ α β : Type}

/-- A fault in a value or a file, and not in finding or using a manifest. -/
def Fault.IsLocal (fault : Fault) : Prop := fault.isManifestFault = false

theorem Fault.IsLocal.aborts {fault : Fault} (h : fault.IsLocal) : fault.Aborts := by
  rintro recipe reason rfl
  cases h

/-! ## Attempts -/

/-- Where there is no result, the error has a property. -/
def FailsBy {ε α : Type} (P : ε → Prop) (result : Except ε α) : Prop :=
  ∀ e, result = .error e → P e

namespace FailsBy

variable {ε : Type} {P Q : ε → Prop} {result : Except ε α} {next : α → Except ε β}

@[simp] theorem ok (a : α) : FailsBy P (.ok a) := nofun

@[simp] theorem error_iff {e : ε} : FailsBy P (.error e : Except ε α) ↔ P e :=
  ⟨fun h => h e rfl, fun h _ heq => Except.error.inj heq ▸ h⟩

theorem mono (h : FailsBy P result) (himp : ∀ e, P e → Q e) : FailsBy Q result :=
  fun e he => himp e (h e he)

theorem bind (h : FailsBy P result) (hnext : ∀ a, FailsBy P (next a)) :
    FailsBy P (result >>= next) := by
  cases result with
  | ok a => exact hnext a
  | error e => exact error_iff.2 (h e rfl)

theorem ite {p : Prop} [Decidable p] {other : Except ε α} (h : FailsBy P result)
    (h' : FailsBy P other) : FailsBy P (if p then result else other) := by
  split
  · exact h
  · exact h'

theorem map (h : FailsBy P result) (f : α → β) : FailsBy P (result.map f) := by
  cases result with
  | ok a => exact ok _
  | error e => exact error_iff.2 (h e rfl)

theorem mapM {l : List α} {f : α → Except ε β} (h : ∀ a ∈ l, FailsBy P (f a)) :
    FailsBy P (l.mapM f) := by
  induction l with
  | nil => exact ok []
  | cons a l ih =>
      rw [List.mapM_cons]
      refine (h a List.mem_cons_self).bind fun b => ?_
      exact (ih fun other hother => h other (List.mem_cons_of_mem _ hother)).bind
        fun rest => ok _

theorem findM? {l : List α} {p : α → Except ε Bool} (h : ∀ a ∈ l, FailsBy P (p a)) :
    FailsBy P (l.findM? p) := by
  induction l with
  | nil => exact ok none
  | cons a l ih =>
      refine (h a List.mem_cons_self).bind fun found => ?_
      split
      · exact ok _
      · exact ih fun other hother => h other (List.mem_cons_of_mem _ hother)

theorem filterMapM {l : List α} {f : α → Except ε (Option β)} (h : ∀ a ∈ l, FailsBy P (f a)) :
    FailsBy P (l.filterMapM f) := by
  induction l with
  | nil => exact ok []
  | cons a l ih =>
      have hrest := ih fun other hother => h other (List.mem_cons_of_mem _ hother)
      rw [List.filterMapM_cons]
      refine (h a List.mem_cons_self).bind fun found => ?_
      split
      · exact hrest
      · exact hrest.bind fun _ => ok _

end FailsBy

namespace Attempt

abbrev Aborts (result : Attempt α) : Prop := FailsBy Fault.Aborts result

end Attempt

/-! ## Works -/

namespace Work

variable {P : Fault → Prop} {I : σ → Prop} {work : Work σ α} {next : α → Work σ β}

/-- From states with `I` a work fails only by faults with `P`, and it keeps `I` anyway. -/
def Fails (P : Fault → Prop) (I : σ → Prop) (work : Work σ α) : Prop :=
  ∀ s log, I s → FailsBy P (exec work (s, log)).1 ∧ I (exec work (s, log)).2.1

abbrev Aborts (I : σ → Prop) (work : Work σ α) : Prop := Fails Fault.Aborts I work

namespace Fails

theorem attempt {result : Attempt α} (h : FailsBy P result) : Fails P I (attempt result) :=
  fun _ _ hs => ⟨h, hs⟩

theorem pure (a : α) : Fails P I (Pure.pure a) := attempt (.ok a)

theorem throw {fault : Fault} (h : P fault) : Fails P I (throw fault : Work σ α) :=
  attempt (FailsBy.error_iff.2 h)

theorem state : Fails P I (state : Work σ σ) := fun _ _ hs => ⟨.ok _, hs⟩

theorem tell (entries : Log) : Fails P I (tell entries) := fun _ _ hs => ⟨.ok _, hs⟩

theorem change {f : σ → σ} (h : ∀ s, I s → I (f s)) : Fails P I (change f) :=
  fun s _ hs => ⟨.ok _, h s hs⟩

theorem setState {s : σ} (h : I s) : Fails P I (setState s) := fun _ _ _ => ⟨.ok _, h⟩

theorem bind (h : Fails P I work) (hnext : ∀ a, Fails P I (next a)) :
    Fails P I (work >>= next) := by
  intro s log hs
  obtain ⟨hfaults, hmid⟩ := h s log hs
  rw [exec_bind]
  rcases hwork : exec work (s, log) with ⟨fault | a, t, log'⟩
  · rw [hwork] at hfaults hmid
    exact ⟨FailsBy.error_iff.2 (hfaults fault rfl), hmid⟩
  · rw [hwork] at hmid
    exact hnext a t log' hmid

/-- What an attempt gave is known behind it. -/
theorem given {result : Attempt α} {next : α → Work σ β} (h : FailsBy P result)
    (hnext : ∀ a, result = .ok a → Fails P I (next a)) :
    Fails P I (Work.attempt result >>= next) := by
  cases result with
  | error fault => exact fun _ _ hs => ⟨FailsBy.error_iff.2 (h fault rfl), hs⟩
  | ok a => exact hnext a rfl

/-- The state that is asked for has the invariant. -/
theorem get {next : σ → Work σ β} (h : ∀ s, I s → Fails P I (next s)) :
    Fails P I (Work.state >>= next) := by
  intro s log hs
  rw [exec_bind_ok (exec_state s log)]
  exact h s hs s log hs

theorem ite {p : Prop} [Decidable p] {other : Work σ α} (h : p → Fails P I work)
    (h' : ¬ p → Fails P I other) : Fails P I (if p then work else other) := by
  split
  · exact h ‹p›
  · exact h' ‹¬ p›

/-- A work that is left for another one under a condition, or given up. -/
theorem narrowed {p q r : Prop} [Decidable p] [Decidable q] [Decidable r] {fault : Fault}
    {other rest : Work σ α} (hfault : P fault) (hother : Fails P I other) (h : Fails P I rest) :
    Fails P I (if p then
      if q then (MonadExcept.throw fault : Work σ Unit) >>= fun _ => if r then other else rest
      else if r then other else rest
      else rest) := by
  have hinner : Fails P I (if r then other else rest) := ite (fun _ => hother) fun _ => h
  exact ite (fun _ => ite (fun _ => bind (throw hfault) fun _ => hinner) fun _ => hinner)
    fun _ => h

/-- The invariant on the part may depend on the state around it. -/
theorem within {part : σ → τ} {put : τ → σ → σ} {work : Work τ α} {J : σ → τ → Prop}
    (h : ∀ s, I s → Fails P (J s) work) (hpart : ∀ s, I s → J s (part s))
    (hput : ∀ s t, I s → J s t → I (put t s)) : Fails P I (within part put work) := by
  intro s log hs
  obtain ⟨hfaults, hend⟩ := h s hs (part s) log (hpart s hs)
  rw [exec_within]
  exact ⟨hfaults, hput s _ hs hend⟩

theorem mono {Q : Fault → Prop} (h : Fails P I work) (himp : ∀ fault, P fault → Q fault) :
    Fails Q I work :=
  fun s log hs => ⟨(h s log hs).1.mono himp, (h s log hs).2⟩

/-- A fault that was caught is one of those by which the work fails. -/
theorem caught {Q : Fault → Prop} {next : Attempt α → Work σ β} (h : Fails Q I work)
    (hnext : ∀ result, FailsBy Q result → Fails P I (next result)) :
    Fails P I (Work.caught work >>= next) := by
  intro s log hs
  obtain ⟨hfaults, hmid⟩ := h s log hs
  rw [exec_bind_ok (exec_caught work (s, log))]
  exact hnext _ hfaults _ _ hmid

theorem mapM {l : List α} {f : α → Work σ β} (h : ∀ a ∈ l, Fails P I (f a)) :
    Fails P I (l.mapM f) := by
  induction l with
  | nil => exact pure []
  | cons a l ih =>
      rw [List.mapM_cons]
      refine (h a List.mem_cons_self).bind fun b => ?_
      exact (ih fun other hother => h other (List.mem_cons_of_mem _ hother)).bind
        fun rest => pure _

theorem foldlM {l : List α} {f : β → α → Work σ β} (h : ∀ b, ∀ a ∈ l, Fails P I (f b a))
    (b : β) : Fails P I (l.foldlM f b) := by
  induction l generalizing b with
  | nil => exact pure b
  | cons a l ih =>
      rw [List.foldlM_cons]
      refine (h b a List.mem_cons_self).bind fun b' => ?_
      exact ih (fun c other hother => h c other (List.mem_cons_of_mem _ hother)) b'

end Fails

/-- A fold that fails has gone through the items in front of the one at which it fails. -/
theorem of_exec_foldlM_error {l : List α} {f : β → α → Work σ β} {b : β} {s t : σ × Log}
    {fault : Fault} (h : exec (l.foldlM f b) s = (.error fault, t)) :
    ∃ before a after c mid, l = before ++ a :: after ∧
      exec (before.foldlM f b) s = (.ok c, mid) ∧ exec (f c a) mid = (.error fault, t) := by
  induction l generalizing b s with
  | nil => cases h
  | cons a l ih =>
      rw [List.foldlM_cons, exec_bind] at h
      rcases hstep : exec (f b a) s with ⟨first | c, mid⟩
      · rw [hstep] at h
        cases h
        exact ⟨[], a, l, b, s, rfl, rfl, hstep⟩
      · rw [hstep] at h
        obtain ⟨before, other, after, d, last, rfl, hbefore, hlast⟩ := ih h
        refine ⟨a :: before, other, after, d, last, rfl, ?_, hlast⟩
        rw [List.foldlM_cons, exec_bind_ok hstep, hbefore]

end Work

end Playbook
