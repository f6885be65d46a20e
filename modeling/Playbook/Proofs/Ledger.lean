import Playbook.Proofs.Work

/-!
# Works with a memory

A state may remember what it was asked for. A ledger says what that means for
the state and for the messages. A work that is recorded in a ledger gives the
same result from every state that holds the ledger, so that works which are
called in turn give what each of them gives when it is called first.
-/

namespace Playbook

variable {σ κ α β γ : Type}

/--
Results and messages of works that are called in turn on one state, and the
state behind them. A work that fails does not keep the next ones back.
-/
def Work.inTurn (s : σ) : List (Work σ α) → List (Attempt α × Log) × σ
  | [] => ([], s)
  | work :: works =>
      let (result, s, log) := work.runFrom s
      let (answers, last) := inTurn s works
      ((result, log) :: answers, last)

namespace Work

theorem length_inTurn (s : σ) (works : List (Work σ α)) :
    (inTurn s works).1.length = works.length := by
  induction works generalizing s with
  | nil => rfl
  | cons work works ih => simp [inTurn, ih]

theorem inTurn_append (s : σ) (works others : List (Work σ α)) :
    inTurn s (works ++ others) =
      ((inTurn s works).1 ++ (inTurn (inTurn s works).2 others).1,
        (inTurn (inTurn s works).2 others).2) := by
  induction works generalizing s with
  | nil => rfl
  | cons work works ih => simp [inTurn, ih]

end Work

/--
The entries that a state holds, and what is written when further entries
come behind earlier ones.
-/
structure Ledger (σ κ : Type) where
  Holds : List κ → σ → Prop
  Told : List κ → List κ → Log → Prop
  told_nil : ∀ past, Told past [] []
  told_append : ∀ {past asked more log later}, Told past asked log →
    Told (past ++ asked) more later → Told past (asked ++ more) (log ++ later)

namespace Ledger

open Work

variable {ledger : Ledger σ κ} {past asked more : List κ}

/-- From every state of the ledger a work gives this result and adds these entries. -/
def Records (ledger : Ledger σ κ) (work : Work σ α) (result : Attempt α) (asked : List κ) : Prop :=
  ∀ past s log, ledger.Holds past s → ∃ t later,
    exec work (s, log) = (result, t, log ++ later) ∧ ledger.Holds (past ++ asked) t ∧
      ledger.Told past asked later

namespace Records

theorem attempt (result : Attempt α) : ledger.Records (Work.attempt result) result [] :=
  fun past s log h => ⟨s, [], by simp, by simpa using h, ledger.told_nil past⟩

theorem pure (a : α) : ledger.Records (pure a) (.ok a) [] := attempt (.ok a)

theorem throw (fault : Fault) : ledger.Records (throw fault : Work σ α) (.error fault) [] :=
  attempt (.error fault)

theorem tell {entries : Log} (h : ∀ past, ledger.Told past [] entries) :
    ledger.Records (Work.tell entries) (.ok ()) [] :=
  fun past s _ hs => ⟨s, entries, exec_tell _ _ _, by simpa using hs, h past⟩

variable {work : Work σ α} {next : α → Work σ β} {a : α} {result : Attempt β} {fault : Fault}

theorem bind (first : ledger.Records work (.ok a) asked)
    (second : ledger.Records (next a) result more) :
    ledger.Records (work >>= next) result (asked ++ more) := by
  intro past s log h
  obtain ⟨t, early, hfirst, ht, htold⟩ := first past s log h
  obtain ⟨u, late, hsecond, hu, htoldlate⟩ := second _ t (log ++ early) ht
  refine ⟨u, early ++ late, ?_, by simpa using hu, ledger.told_append htold htoldlate⟩
  rw [exec_bind_ok hfirst, hsecond, List.append_assoc]

theorem bind_error (first : ledger.Records work (.error fault) asked) :
    ledger.Records (work >>= next) (.error fault) asked := by
  intro past s log h
  obtain ⟨t, early, hfirst, ht, htold⟩ := first past s log h
  exact ⟨t, early, exec_bind_error hfirst, ht, htold⟩

/-- Further steps that ask for nothing leave the entries as they are. -/
theorem bind_quiet (first : ledger.Records work (.ok a) asked)
    (second : ledger.Records (next a) result []) :
    ledger.Records (work >>= next) result asked := by
  simpa using first.bind second

theorem map {work : Work σ α} {result : Attempt α} (h : ledger.Records work result asked)
    (f : α → β) : ledger.Records (f <$> work) (result.map f) asked := by
  intro past s log hs
  obtain ⟨t, later, hexec, ht, htold⟩ := h past s log hs
  exact ⟨t, later, by rw [exec_map, hexec], ht, htold⟩

theorem attempt_bind {given : Attempt α} {rest : α → Work σ β} {result : Attempt β}
    (hok : ∀ a, given = .ok a → ledger.Records (rest a) result asked)
    (herror : ∀ fault, given = .error fault → result = .error fault ∧ asked = []) :
    ledger.Records (Work.attempt given >>= rest) result asked := by
  cases given with
  | ok a => simpa using (attempt (.ok a)).bind (hok a rfl)
  | error fault =>
      obtain ⟨rfl, rfl⟩ := herror fault rfl
      exact (attempt _).bind_error

theorem runFrom_eq {work : Work σ α} {result : Attempt α} {s : σ}
    (h : ledger.Records work result asked) (hs : ledger.Holds past s) :
    (work.runFrom s).1 = result := by
  obtain ⟨t, later, hexec, -⟩ := h past s [] hs
  rw [Work.runFrom_eq, hexec]

end Records

/-! ## Works that ask for entries in an order -/

/--
A work that gives one result from all states of the ledger. What it adds are
`ids` in their order, all of them if it does not fail.
-/
def Asks (ledger : Ledger σ κ) (work : Work σ α) (ids : List κ) : Prop :=
  ∃ result asked, ledger.Records work result asked ∧ asked <+: ids ∧
    ∀ a, result = .ok a → asked = ids

namespace Asks

variable {work : Work σ α} {next : α → Work σ β} {ids others : List κ}

theorem attempt (result : Attempt α) : ledger.Asks (Work.attempt result) [] :=
  ⟨result, [], .attempt result, List.nil_prefix, fun _ _ => rfl⟩

theorem pure (a : α) : ledger.Asks (pure a) [] := attempt (.ok a)

theorem throw (fault : Fault) (ids : List κ) : ledger.Asks (throw fault : Work σ α) ids :=
  ⟨.error fault, [], .throw fault, List.nil_prefix, fun _ h => nomatch h⟩

theorem bind (first : ledger.Asks work ids) (second : ∀ a, ledger.Asks (next a) others) :
    ledger.Asks (work >>= next) (ids ++ others) := by
  obtain ⟨result, asked, hfirst, hfront, hall⟩ := first
  cases result with
  | error fault =>
      exact ⟨.error fault, asked, hfirst.bind_error, hfront.trans (List.prefix_append _ _),
        fun _ h => nomatch h⟩
  | ok a =>
      obtain rfl := hall a rfl
      obtain ⟨result, more, hsecond, hmore, hok⟩ := second a
      exact ⟨result, asked ++ more, hfirst.bind hsecond,
        (List.prefix_append_right_inj asked).2 hmore, fun b hb => by rw [hok b hb]⟩

theorem andThen (first : ledger.Asks work []) (second : ∀ a, ledger.Asks (next a) ids) :
    ledger.Asks (work >>= next) ids :=
  first.bind second

theorem andGive (first : ledger.Asks work ids) (second : ∀ a, ledger.Asks (next a) []) :
    ledger.Asks (work >>= next) ids := by
  simpa using first.bind second

/-- An attempt in front of a work that depends on what it gives. -/
theorem attempt_bind {given : Attempt α} (h : ∀ a, given = .ok a → ledger.Asks (next a) ids) :
    ledger.Asks (Work.attempt given >>= next) ids := by
  cases given with
  | ok a => exact h a rfl
  | error fault => exact throw fault ids

/-- A fault after which something would have come. -/
theorem throw_bind (fault : Fault) (next : α → Work σ β) (ids : List κ) :
    ledger.Asks ((MonadExcept.throw fault : Work σ α) >>= next) ids :=
  ⟨.error fault, [], (Records.throw fault).bind_error, List.nil_prefix, fun _ h => nomatch h⟩

theorem ite {p : Prop} [Decidable p] {work other : Work σ α} (hthen : ledger.Asks work ids)
    (helse : ledger.Asks other ids) : ledger.Asks (if p then work else other) ids := by
  split
  · exact hthen
  · exact helse

theorem tell (entries : Log) (h : ∀ past, ledger.Told past [] entries) :
    ledger.Asks (Work.tell entries) [] :=
  ⟨.ok (), [], .tell h, List.prefix_rfl, fun _ _ => rfl⟩

theorem mapM {l : List γ} {f : γ → Work σ α} {ids : γ → List κ}
    (h : ∀ c ∈ l, ledger.Asks (f c) (ids c)) : ledger.Asks (l.mapM f) (l.flatMap ids) := by
  induction l with
  | nil => exact .pure []
  | cons c l ih =>
      rw [List.mapM_cons, List.flatMap_cons]
      refine (h c List.mem_cons_self).bind fun b => ?_
      exact (ih fun other hother => h other (List.mem_cons_of_mem _ hother)).andGive
        fun _ => .pure _

end Asks

/-! ## Works in turn -/

variable {calls : List γ} {work : γ → Work σ α} {result : γ → Attempt α} {entries : γ → List κ}
variable {s : σ}

theorem holds_inTurn
    (hcalls : ∀ call ∈ calls, ledger.Records (work call) (result call) (entries call))
    (hs : ledger.Holds past s) :
    (inTurn s (calls.map work)).1.map (·.1) = calls.map result ∧
      ledger.Holds (past ++ calls.flatMap entries) (inTurn s (calls.map work)).2 := by
  induction calls generalizing past s with
  | nil => exact ⟨rfl, by simpa [inTurn] using hs⟩
  | cons call calls ih =>
      obtain ⟨t, later, hexec, ht, -⟩ := hcalls call List.mem_cons_self past s [] hs
      obtain ⟨hanswers, hlast⟩ :=
        ih (fun other hother => hcalls other (List.mem_cons_of_mem _ hother)) ht
      rw [List.map_cons, inTurn, Work.runFrom_eq, hexec]
      exact ⟨by simp [hanswers], by simpa using hlast⟩

/-- What is written in the course of a sequence. -/
theorem told_inTurn
    (hcalls : ∀ call ∈ calls, ledger.Records (work call) (result call) (entries call))
    (hs : ledger.Holds past s) :
    ledger.Told past (calls.flatMap entries) ((inTurn s (calls.map work)).1.map (·.2)).flatten := by
  induction calls generalizing past s with
  | nil => exact ledger.told_nil past
  | cons call calls ih =>
      obtain ⟨t, later, hexec, ht, htold⟩ := hcalls call List.mem_cons_self past s [] hs
      have hrest := ih (fun other hother => hcalls other (List.mem_cons_of_mem _ hother)) ht
      rw [List.map_cons, inTurn, Work.runFrom_eq, hexec]
      exact ledger.told_append htold hrest

/-- The answer to a call in the course of a sequence, with what is written along with it. -/
theorem exists_told_inTurn {before after : List γ} {call : γ}
    (hcalls : ∀ other ∈ before ++ call :: after,
      ledger.Records (work other) (result other) (entries other))
    (hs : ledger.Holds past s) :
    ∃ log, (inTurn s ((before ++ call :: after).map work)).1[before.length]? =
        some (result call, log) ∧
      ledger.Told (past ++ before.flatMap entries) (entries call) log := by
  obtain ⟨-, hmid⟩ := holds_inTurn
    (fun other (hother : other ∈ before) => hcalls other (List.mem_append_left _ hother)) hs
  obtain ⟨t, log, hexec, -, htold⟩ := hcalls call (by simp) _ _ [] hmid
  refine ⟨log, ?_, htold⟩
  have hlength : (inTurn s (before.map work)).1.length = before.length := by
    rw [length_inTurn, List.length_map]
  rw [List.map_append, inTurn_append, List.getElem?_append_right (Nat.le_of_eq hlength), hlength,
    Nat.sub_self, List.map_cons, inTurn, Work.runFrom_eq, hexec]
  rfl

end Ledger

end Playbook
