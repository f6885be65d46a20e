import Playbook.Proofs.Work

/-!
# Messages of a work

`Writes` bounds what a work writes on any of its ways, also where it gives
up: an invariant of the states, the messages, and what it gives at its end.
-/

namespace Playbook.Work

variable {σ τ α β : Type} {P : LogEntry → Prop} {I J K : σ → Prop} {Q : α → Prop}

/--
From a state with `I` the work leads to one with `J`. All that it writes has
`P`, and what it gives has `Q`.
-/
def Writes (P : LogEntry → Prop) (I J : σ → Prop) (Q : α → Prop) (work : Work σ α) : Prop :=
  ∀ s log, I s → (∀ entry ∈ (exec work (s, log)).2.2, entry ∈ log ∨ P entry) ∧
    J (exec work (s, log)).2.1 ∧ ∀ a, (exec work (s, log)).1 = .ok a → Q a

namespace Writes

theorem mono {I' J' : σ → Prop} {Q' : α → Prop} {work : Work σ α} (h : Writes P I J Q work)
    (hI : ∀ s, I' s → I s) (hJ : ∀ s, J s → J' s) (hQ : ∀ a, Q a → Q' a) :
    Writes P I' J' Q' work := by
  intro s log hs
  obtain ⟨hlog, hend, hresult⟩ := h s log (hI s hs)
  exact ⟨hlog, hJ _ hend, fun a ha => hQ a (hresult a ha)⟩

/-- What a work gives does not matter. -/
theorem any {work : Work σ α} (h : Writes P I J Q work) : Writes P I J (fun _ => True) work :=
  h.mono (fun _ h => h) (fun _ h => h) fun _ _ => trivial

/-- A work that writes nothing. -/
theorem quiet {work : Work σ α} (h : ∀ s log, I s → ∃ result t,
    exec work (s, log) = (result, t, log) ∧ J t ∧ ∀ a, result = .ok a → Q a) :
    Writes P I J Q work := by
  intro s log hs
  obtain ⟨result, t, hexec, hJ, hQ⟩ := h s log hs
  rw [hexec]
  exact ⟨fun _ hentry => .inl hentry, hJ, hQ⟩

theorem pure {a : α} (h : Q a) : Writes P I I Q (Pure.pure a) := by
  refine quiet fun s log hs => ⟨.ok a, s, rfl, hs, ?_⟩
  rintro _ ⟨⟩
  exact h

theorem ite {p : Prop} [Decidable p] {work other : Work σ α} (h : p → Writes P I J Q work)
    (h' : ¬ p → Writes P I J Q other) : Writes P I J Q (if p then work else other) := by
  split
  · exact h ‹p›
  · exact h' ‹¬ p›

theorem throw (fault : Fault) : Writes P I I Q (throw fault) :=
  quiet fun s _ hs => ⟨.error fault, s, rfl, hs, nofun⟩

theorem attempt {result : Attempt α} (h : ∀ a, result = .ok a → Q a) :
    Writes P I I Q (attempt result) :=
  quiet fun s _ hs => ⟨result, s, rfl, hs, h⟩

theorem state : Writes P I I I (state : Work σ σ) := by
  refine quiet fun s log hs => ⟨.ok s, s, rfl, hs, ?_⟩
  rintro _ ⟨⟩
  exact hs

theorem setState {s : σ} (h : J s) : Writes P I J (fun _ => True) (setState s) :=
  quiet fun _ _ _ => ⟨.ok (), s, rfl, h, fun _ _ => trivial⟩

theorem change {f : σ → σ} (h : ∀ s, I s → J (f s)) :
    Writes P I J (fun _ => True) (change f) :=
  quiet fun s _ hs => ⟨.ok (), f s, rfl, h s hs, fun _ _ => trivial⟩

theorem tell {entries : Log} (h : ∀ entry ∈ entries, P entry) :
    Writes P I I (fun _ => True) (tell entries) := by
  intro s log hs
  rw [exec_tell]
  exact ⟨fun entry hentry => (List.mem_append.1 hentry).imp_right (h entry), hs,
    fun _ _ => trivial⟩

theorem say {level : Level} {message : String} (h : P ⟨level, message⟩) :
    Writes P I I (fun _ => True) (say level message) :=
  tell fun _ hentry => List.mem_singleton.1 hentry ▸ h

/-- A sequence; where its first part gives up, the state is the one behind that part. -/
theorem sequence {work : Work σ α} {next : α → Work σ β} {R : β → Prop}
    (h : Writes P I J Q work) (hnext : ∀ a, Q a → Writes P J K R (next a))
    (hJ : ∀ s, J s → K s) : Writes P I K R (work >>= next) := by
  intro s log hs
  obtain ⟨hlog, hmid, hgiven⟩ := h s log hs
  rw [exec_bind]
  rcases hwork : exec work (s, log) with ⟨_ | a, t, log'⟩
  · rw [hwork] at hlog hmid
    exact ⟨hlog, hJ t hmid, nofun⟩
  · rw [hwork] at hlog hmid hgiven
    obtain ⟨hlog', hend, hresult⟩ := hnext a (hgiven a rfl) t log' hmid
    refine ⟨fun entry hentry => ?_, hend, hresult⟩
    rcases hlog' entry hentry with hentry | hP
    · exact hlog entry hentry
    · exact .inr hP

theorem bind {work : Work σ α} {next : α → Work σ β} {R : β → Prop} (h : Writes P I J Q work)
    (hnext : ∀ a, Q a → Writes P J J R (next a)) : Writes P I J R (work >>= next) :=
  h.sequence hnext fun _ h => h

/-- A work that is given up under a condition. -/
theorem stopped {p : Prop} [Decidable p] {fails : Work σ Unit} {rest : Unit → Work σ β}
    {R : β → Prop} (hfails : Writes P I I (fun _ => True) fails) (h : Writes P I I R (rest ())) :
    Writes P I I R (if p then fails >>= rest else rest ()) :=
  ite (fun _ => hfails.bind fun _ _ => h) fun _ => h

/-- A work that is given up under a condition, after something else was tried. -/
theorem guarded {p : Prop} [Decidable p] {first : Work σ α} {fails : α → Work σ Unit}
    {rest : Unit → Work σ β} {R : β → Prop} (hfirst : Writes P I I (fun _ => True) first)
    (hfails : ∀ a, Writes P I I (fun _ => True) (fails a)) (h : Writes P I I R (rest ())) :
    Writes P I I R (if p then first >>= fun a => fails a >>= rest else rest ()) :=
  ite (fun _ => hfirst.bind fun a _ => (hfails a).bind fun _ _ => h) fun _ => h

/-- A work that is given up under a condition, or left for another one. -/
theorem narrowed {p q r : Prop} [Decidable p] [Decidable q] [Decidable r] {fails : Work σ Unit}
    {other rest : Work σ β} {R : β → Prop} (hfails : Writes P I I (fun _ => True) fails)
    (hother : Writes P I I R other) (h : Writes P I I R rest) :
    Writes P I I R (if p then
      if q then fails >>= fun _ => if r then other else rest else if r then other else rest
      else rest) :=
  ite (fun _ => stopped hfails (ite (fun _ => hother) fun _ => h)) fun _ => h

theorem within {part : σ → τ} {put : τ → σ → σ} {work : Work τ α} {I' J' : τ → Prop}
    (h : Writes P I' J' Q work) (hpart : ∀ s, I s → I' (part s))
    (hput : ∀ s t, I s → J' t → J (put t s)) : Writes P I J Q (within part put work) := by
  intro s log hs
  obtain ⟨hlog, hend, hresult⟩ := h (part s) log (hpart s hs)
  rw [exec_within]
  exact ⟨hlog, hput s _ hs hend, hresult⟩

theorem caught {work : Work σ α} (h : Writes P I J Q work) :
    Writes P I J (fun _ => True) (caught work) := by
  intro s log hs
  obtain ⟨hlog, hend, -⟩ := h s log hs
  rw [exec_caught]
  exact ⟨hlog, hend, fun _ _ => trivial⟩

theorem foldlM {l : List α} {f : β → α → Work σ β} {R : β → Prop}
    (h : ∀ b, ∀ a ∈ l, R b → Writes P I I R (f b a)) {b : β} (hb : R b) :
    Writes P I I R (l.foldlM f b) := by
  induction l generalizing b with
  | nil => exact pure hb
  | cons a l ih =>
      rw [List.foldlM_cons]
      refine (h b a List.mem_cons_self hb).bind fun b' hb' => ih ?_ hb'
      exact fun b other hother => h b other (List.mem_cons_of_mem _ hother)

theorem mapM {l : List α} {f : α → Work σ β} {R : β → Prop}
    (h : ∀ a ∈ l, Writes P I I R (f a)) : Writes P I I (fun _ => True) (l.mapM f) := by
  induction l with
  | nil => exact pure trivial
  | cons a l ih =>
      rw [List.mapM_cons]
      refine (h a List.mem_cons_self).bind fun b _ => ?_
      exact (ih fun other hother => h other (List.mem_cons_of_mem _ hother)).bind
        fun rest _ => pure trivial

/-- All messages of a run from a state with `I`. -/
theorem runFrom {work : Work σ α} (h : Writes P I J Q work) {s : σ} (hs : I s) :
    ∀ entry ∈ (work.runFrom s).2.2, P entry := by
  intro entry hentry
  exact ((h s [] hs).1 entry hentry).resolve_left (by simp)

/-- What a run from a state with `I` gives. -/
theorem gives {work : Work σ α} (h : Writes P I J Q work) {s : σ} (hs : I s) {a : α}
    (ha : (work.runFrom s).1 = .ok a) : Q a :=
  (h s [] hs).2.2 a ha

end Writes

end Playbook.Work
