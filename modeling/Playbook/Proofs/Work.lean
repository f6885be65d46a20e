import Mathlib.Data.List.Forall2
import Playbook.Log

/-!
# Running works

How each way to build a `Work` acts on a state and on the messages so far, and
what an attempt or a work that gives a value must have gone through.
-/

namespace Playbook

/-- A sequence of attempts that gives a value has given one at its first part. -/
theorem Attempt.of_bind_ok {α β : Type} {first : Attempt α} {next : α → Attempt β} {b : β}
    (h : (first >>= next) = .ok b) : ∃ a, first = .ok a ∧ next a = .ok b := by
  cases first with
  | error fault => cases h
  | ok a => exact ⟨a, rfl, h⟩

theorem Attempt.bind_eq_of_ok {α β : Type} {first : Attempt α} {a : α} (h : first = .ok a)
    (next : α → Attempt β) : (first >>= next) = next a := by
  rw [h]
  rfl

/-- What a choice gives, nothing where it fails. -/
def Attempt.chosen? {α β : Type} (choice : α → Attempt (Option β)) (a : α) : Option β :=
  match choice a with
  | .ok found => found
  | .error _ => none

theorem Attempt.of_filterMapM_ok {α β : Type} {choice : α → Attempt (Option β)} {l : List α}
    {found : List β} (h : l.filterMapM choice = .ok found) :
    (∀ a ∈ l, ∃ result, choice a = .ok result) ∧ found = l.filterMap (chosen? choice) := by
  induction l generalizing found with
  | nil =>
      cases h
      exact ⟨by simp, rfl⟩
  | cons a l ih =>
      rw [List.filterMapM_cons] at h
      obtain ⟨result, hresult, h⟩ := of_bind_ok h
      have hchosen : chosen? choice a = result := by
        rw [chosen?, hresult]
      have hall {others : List β} (hothers : l.filterMapM choice = .ok others) :
          ∀ other ∈ a :: l, ∃ result, choice other = .ok result := by
        intro other hother
        rcases List.mem_cons.1 hother with rfl | hother
        · exact ⟨result, hresult⟩
        · exact (ih hothers).1 other hother
      cases result with
      | none =>
          rw [List.filterMap_cons_none hchosen]
          exact ⟨hall h, (ih h).2⟩
      | some kept =>
          obtain ⟨others, hothers, h⟩ := of_bind_ok h
          cases h
          rw [List.filterMap_cons_some hchosen, ← (ih hothers).2]
          exact ⟨hall hothers, rfl⟩

theorem Attempt.filterMapM_eq_ok {α β : Type} {choice : α → Attempt (Option β)} {l : List α}
    (h : ∀ a ∈ l, ∃ result, choice a = .ok result) :
    l.filterMapM choice = .ok (l.filterMap (chosen? choice)) := by
  induction l with
  | nil => rfl
  | cons a l ih =>
      obtain ⟨result, hresult⟩ := h a List.mem_cons_self
      have hrest := ih fun other hother => h other (List.mem_cons_of_mem _ hother)
      have hchosen : chosen? choice a = result := by
        rw [chosen?, hresult]
      rw [List.filterMapM_cons, hresult, List.filterMap_cons, hchosen, hrest]
      cases result <;> rfl

theorem Attempt.filterM_eq_ok {α : Type} {p : α → Attempt Bool} {q : α → Bool} {l : List α}
    (h : ∀ a ∈ l, p a = .ok (q a)) : l.filterM p = .ok (l.filter q) := by
  have haux (kept : List α) : l.filterAuxM p kept = .ok ((l.filter q).reverse ++ kept) := by
    induction l generalizing kept with
    | nil => rfl
    | cons a l ih =>
        rw [List.filterAuxM, h a List.mem_cons_self, List.filter_cons]
        have hrest := ih fun other hother => h other (List.mem_cons_of_mem _ hother)
        cases hq : q a with
        | true => exact (hrest (a :: kept)).trans (by simp)
        | false => exact hrest kept
  rw [List.filterM, haux]
  exact congrArg Except.ok (by simp)

theorem Attempt.foldlM_eq_ok {α β : Type} {f : β → α → Attempt β} {g : β → α → β} {l : List α}
    (h : ∀ b, ∀ a ∈ l, f b a = .ok (g b a)) (b : β) : l.foldlM f b = .ok (l.foldl g b) := by
  induction l generalizing b with
  | nil => rfl
  | cons a l ih =>
      rw [List.foldlM_cons, h b a List.mem_cons_self]
      exact ih (fun b other hother => h b other (List.mem_cons_of_mem _ hother)) (g b a)

theorem Attempt.exists_mapM {α β : Type} {l : List α} {f : α → Attempt β} {P : α → β → Prop}
    (h : ∀ a ∈ l, ∃ b, f a = .ok b ∧ P a b) :
    ∃ found, l.mapM f = .ok found ∧ List.Forall₂ P l found := by
  induction l with
  | nil => exact ⟨[], rfl, .nil⟩
  | cons a l ih =>
      obtain ⟨b, hb, hP⟩ := h a List.mem_cons_self
      obtain ⟨found, hfound, hall⟩ := ih fun other hother => h other (List.mem_cons_of_mem _ hother)
      refine ⟨b :: found, ?_, .cons hP hall⟩
      rw [List.mapM_cons, hb, hfound]
      rfl

theorem Attempt.of_mapM_ok {α β : Type} {l : List α} {f : α → Attempt β} {found : List β}
    (h : l.mapM f = .ok found) : List.Forall₂ (fun a b => f a = .ok b) l found := by
  induction l generalizing found with
  | nil =>
      cases h
      exact .nil
  | cons a l ih =>
      rw [List.mapM_cons] at h
      obtain ⟨b, hb, h⟩ := of_bind_ok h
      obtain ⟨rest, hrest, h⟩ := of_bind_ok h
      cases h
      exact .cons hb (ih hrest)

theorem exists_left_of_mem {α β : Type} {R : α → β → Prop} {as : List α} {bs : List β}
    (h : List.Forall₂ R as bs) {b : β} (hb : b ∈ bs) : ∃ a ∈ as, R a b := by
  induction h with
  | nil => cases hb
  | cons hR _ ih =>
      rcases List.mem_cons.1 hb with rfl | hb
      · exact ⟨_, List.mem_cons_self, hR⟩
      · obtain ⟨a, ha, hR⟩ := ih hb
        exact ⟨a, List.mem_cons_of_mem _ ha, hR⟩

theorem exists_right_of_mem {α β : Type} {R : α → β → Prop} {as : List α} {bs : List β}
    (h : List.Forall₂ R as bs) {a : α} (ha : a ∈ as) : ∃ b ∈ bs, R a b :=
  exists_left_of_mem h.flip ha

theorem lookup_eq_none_iff {α : Type} {l : List (String × α)} {id : String} :
    l.lookup id = none ↔ id ∉ l.map (·.1) := by
  rw [List.lookup_eq_none_iff]
  simp only [List.mem_map, bne_iff_ne, ne_eq, not_exists, not_and]
  constructor
  · rintro h entry hentry rfl
    simpa using h entry hentry
  · rintro h entry hentry
    simpa [eq_comm] using h entry hentry

theorem lookup_map_snd {α β : Type} (f : α → β) (l : List (String × α)) (id : String) :
    (l.map fun entry => (entry.1, f entry.2)).lookup id = (l.lookup id).map f := by
  induction l with
  | nil => rfl
  | cons entry l ih =>
      rw [List.map_cons, List.lookup_cons, List.lookup_cons, ih]
      cases id == entry.1 <;> rfl

namespace Work

variable {σ τ α β : Type}

/-- The outcome of a work with the state and the messages behind it. -/
def exec (work : Work σ α) (s : σ × Log) : Attempt α × σ × Log := work.run s

theorem runFrom_eq (work : Work σ α) (s : σ) : work.runFrom s = work.exec (s, []) := rfl

@[simp] theorem exec_pure (a : α) (s : σ × Log) :
    exec (pure a : Work σ α) s = (.ok a, s) := rfl

@[simp] theorem exec_throw (fault : Fault) (s : σ × Log) :
    exec (throw fault : Work σ α) s = (.error fault, s) := rfl

theorem exec_bind (work : Work σ α) (next : α → Work σ β) (s : σ × Log) :
    exec (work >>= next) s =
      match exec work s with
      | (.ok a, s') => exec (next a) s'
      | (.error fault, s') => (.error fault, s') := by
  change (ExceptT.bindCont next (work.run s).1).run (work.run s).2 = _
  unfold exec
  rcases work.run s with ⟨_ | _, _⟩ <;> rfl

theorem exec_bind_ok {work : Work σ α} {next : α → Work σ β} {s s' : σ × Log} {a : α}
    (h : exec work s = (.ok a, s')) : exec (work >>= next) s = exec (next a) s' := by
  rw [exec_bind, h]

theorem exec_bind_error {work : Work σ α} {next : α → Work σ β} {s s' : σ × Log}
    {fault : Fault} (h : exec work s = (.error fault, s')) :
    exec (work >>= next) s = (.error fault, s') := by
  rw [exec_bind, h]

@[simp] theorem exec_map (f : α → β) (work : Work σ α) (s : σ × Log) :
    exec (f <$> work) s = ((exec work s).1.map f, (exec work s).2) := by
  rw [map_eq_pure_bind, exec_bind]
  rcases exec work s with ⟨_ | _, _⟩ <;> rfl

theorem exists_exec_of_isOk {work : Work σ α} {s : σ × Log} (h : (exec work s).1.isOk) :
    ∃ a s', exec work s = (.ok a, s') := by
  rcases hwork : exec work s with ⟨fault | a, s'⟩
  · rw [hwork] at h
    cases h
  · exact ⟨a, s', rfl⟩

/-- A sequence that gives a value has given one at its first part. -/
theorem of_exec_bind_ok {work : Work σ α} {next : α → Work σ β} {s t : σ × Log} {b : β}
    (h : exec (work >>= next) s = (.ok b, t)) :
    ∃ a s', exec work s = (.ok a, s') ∧ exec (next a) s' = (.ok b, t) := by
  rw [exec_bind] at h
  rcases hwork : exec work s with ⟨_ | a, s'⟩
  · rw [hwork] at h
    cases h
  · rw [hwork] at h
    exact ⟨a, s', rfl, h⟩

@[simp] theorem exec_state (s : σ) (log : Log) :
    exec (state : Work σ σ) (s, log) = (.ok s, s, log) := rfl

@[simp] theorem exec_setState (s t : σ) (log : Log) :
    exec (setState t) (s, log) = (.ok (), t, log) := rfl

@[simp] theorem exec_change (f : σ → σ) (s : σ) (log : Log) :
    exec (change f) (s, log) = (.ok (), f s, log) := rfl

@[simp] theorem exec_tell (entries : Log) (s : σ) (log : Log) :
    exec (tell entries) (s, log) = (.ok (), s, log ++ entries) := rfl

@[simp] theorem exec_say (level : Level) (message : String) (s : σ) (log : Log) :
    exec (say level message) (s, log) = (.ok (), s, log ++ [⟨level, message⟩]) := rfl

@[simp] theorem exec_attempt (result : Attempt α) (s : σ × Log) :
    exec (attempt result) s = (result, s) := rfl

theorem of_exec_attempt_ok {result : Attempt α} {s s' : σ × Log} {a : α}
    (h : exec (attempt result) s = (.ok a, s')) : result = .ok a ∧ s' = s := by
  obtain ⟨hresult, hstate⟩ := Prod.mk.inj h
  exact ⟨hresult, hstate.symm⟩

@[simp] theorem exec_within (part : σ → τ) (put : τ → σ → σ) (work : Work τ α) (s : σ)
    (log : Log) :
    exec (within part put work) (s, log) =
      ((exec work (part s, log)).1, put (exec work (part s, log)).2.1 s,
        (exec work (part s, log)).2.2) := rfl

theorem of_exec_within_ok {part : σ → τ} {put : τ → σ → σ} {work : Work τ α} {s s' : σ}
    {log log' : Log} {a : α} (h : exec (within part put work) (s, log) = (.ok a, s', log')) :
    ∃ t, exec work (part s, log) = (.ok a, t, log') ∧ s' = put t s := by
  rw [exec_within] at h
  obtain ⟨hresult, h⟩ := Prod.mk.inj h
  obtain ⟨hstate, hlog⟩ := Prod.mk.inj h
  exact ⟨_, Prod.ext hresult (Prod.ext rfl hlog), hstate.symm⟩

@[simp] theorem exec_caught (work : Work σ α) (s : σ × Log) :
    exec (caught work) s = (.ok (exec work s).1, (exec work s).2) := rfl

end Work

/-! ## Shelves -/

/-- A shelf from which the items can be had. -/
def Shelf.Gives {α : Type} (shelf : Shelf α) (items : List (Value × α)) : Prop :=
  match shelf with
  | .ready held => held = items
  | .unread _ outcome => outcome = .ok items

theorem Shelf.exec_items {α : Type} {shelf : Shelf α} {items : List (Value × α)}
    (h : shelf.Gives items) (log : Log) :
    ∃ log', Work.exec (Shelf.items (α := α)) (shelf, log) = (.ok items, .ready items, log') := by
  cases shelf with
  | ready held =>
      obtain rfl : held = items := h
      exact ⟨log, rfl⟩
  | unread own outcome =>
      obtain rfl : outcome = .ok items := h
      exact ⟨log ++ own, rfl⟩

/-- What a shelf gives, now or once it is read. -/
def Shelf.outcome {α : Type} : Shelf α → Attempt (List (Value × α))
  | .unread _ outcome => outcome
  | .ready items => .ok items

/-- What reading a shelf writes. -/
def Shelf.messages {α : Type} : Shelf α → Log
  | .unread log _ => log
  | .ready _ => []

/-- A shelf that is asked for its items keeps what it gives; it may have nothing left to write. -/
theorem Shelf.exec_items_outcome {α : Type} (shelf : Shelf α) (log : Log) :
    ∃ other, Work.exec (Shelf.items (α := α)) (shelf, log) =
        (shelf.outcome, other, log ++ shelf.messages) ∧
      other.outcome = shelf.outcome ∧ (other.messages = [] ∨ other = shelf) := by
  cases shelf with
  | ready items =>
      refine ⟨.ready items, ?_, rfl, .inl rfl⟩
      rw [messages, List.append_nil]
      rfl
  | unread own outcome =>
      cases outcome with
      | ok items => exact ⟨.ready items, rfl, rfl, .inl rfl⟩
      | error fault => exact ⟨.unread own (.error fault), rfl, rfl, .inr rfl⟩

end Playbook
