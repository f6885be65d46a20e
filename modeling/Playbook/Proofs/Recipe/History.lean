import Mathlib.Tactic.Choose
import Playbook.Proofs.Ledger
import Playbook.Proofs.Recipe.Compilation
import Playbook.Proofs.Recipe.Messages
import Playbook.Proofs.Recipe.Time
import Playbook.Proofs.Value.Keys

/-!
# Compilations in one run

A run remembers the agents that it looked up and the conflicts that it
reported. Neither shows in a script: a compilation gives the same text or the
same fault in the course of a run as in a fresh one. The agents are looked up
once, in the order in which the steps ask for them.
-/

namespace Playbook

open Work Value

/-! ## Looking up -/

/-- A desk that holds an id answers without its shelf. -/
theorem AgentDesk.exec_get?_of_held {id : Value} {cache : AgentCache} {found : Option Agent}
    (hkey : id.canBeKey = true) (hheld : AgentCache.find? cache id = some found)
    (shelf : Shelf Agent) (log : Log) :
    exec (get? id) (⟨shelf, cache⟩, log) = (.ok found, ⟨shelf, cache⟩, log) := by
  rw [get?, hkey, Bool.not_true, if_neg Bool.false_ne_true, exec_bind_ok (exec_state _ _)]
  dsimp only
  rw [hheld]
  rfl

/-- An id that is not held is looked up once, and what is found is held from then on. -/
theorem AgentDesk.exec_get?_of_not_held {id : Value} {cache : AgentCache}
    (hkey : id.canBeKey = true) (hnew : AgentCache.find? cache id = none)
    (shelf : Shelf Agent) (log : Log) :
    ∃ other later, other.outcome = shelf.outcome ∧ exec (get? id) (⟨shelf, cache⟩, log) =
      match shelf.outcome with
      | .ok items => (.ok (Shelf.find? items id), ⟨other, cache ++ [(id, Shelf.find? items id)]⟩,
          log ++ later)
      | .error fault => (.error fault, ⟨other, cache⟩, log ++ later) := by
  obtain ⟨other, hitems, hsame, -⟩ := shelf.exec_items_outcome log
  refine ⟨other, shelf.messages, hsame, ?_⟩
  rw [get?, hkey, Bool.not_true, if_neg Bool.false_ne_true, exec_bind_ok (exec_state _ _)]
  dsimp only
  rw [hnew]
  cases houtcome : shelf.outcome with
  | ok items =>
      rw [houtcome] at hitems
      have hget : exec (within (·.shelf) (fun shelf desk => { desk with shelf }) (Shelf.get? id))
          (AgentDesk.mk shelf cache, log) =
            (.ok (Shelf.find? items id), ⟨other, cache⟩, log ++ shelf.messages) := by
        rw [exec_within, Shelf.get?, exec_bind_ok hitems, if_pos hkey]
        rfl
      rw [exec_bind_ok hget]
      rfl
  | error fault =>
      rw [houtcome] at hitems
      have hget : exec (within (·.shelf) (fun shelf desk => { desk with shelf }) (Shelf.get? id))
          (AgentDesk.mk shelf cache, log) =
            (.error fault, ⟨other, cache⟩, log ++ shelf.messages) := by
        rw [exec_within, Shelf.get?, exec_bind_error hitems]
      rw [exec_bind_error hget]

/--
The ids that a run has looked up. They stand in its cache, the different ones
in order of first use, together with what the shelf gives for them.
-/
def lookups (outcome : Attempt (List (Value × Agent))) : Ledger Run Value where
  Holds past run := run.agents.shelf.outcome = outcome ∧
    run.agents.cache.ids = firsts past ∧
    ∀ entry ∈ run.agents.cache, entry.1.IsKey ∧
      ∃ items, outcome = .ok items ∧ entry.2 = Shelf.find? items entry.1
  Told _ _ _ := True
  told_nil _ := trivial
  told_append _ _ := trivial

/-- The ids of the agents on a shelf are keys. -/
def KeyedAgents (outcome : Attempt (List (Value × Agent))) : Prop :=
  ∀ items, outcome = .ok items → ∀ item ∈ items, item.1.IsKey

variable {outcome : Attempt (List (Value × Agent))}

theorem find?_congr {items : List (Value × Agent)} {v w : Value}
    (hitems : ∀ item ∈ items, item.1.IsKey) (hv : v.IsKey) (hw : w.IsKey) (h : v.same w = true) :
    Shelf.find? items v = Shelf.find? items w := by
  induction items with
  | nil => rfl
  | cons item items ih =>
      have hrest := ih fun other hother => hitems other (List.mem_cons_of_mem _ hother)
      unfold Shelf.find? at hrest ⊢
      rw [List.find?_cons, List.find?_cons,
        (hitems item List.mem_cons_self).same_congr hv hw h]
      cases item.1.same w with
      | true => rfl
      | false => exact hrest

theorem AgentCache.isSome_find? (cache : AgentCache) (id : Value) :
    (find? cache id).isSome = (ids cache).any (·.same id) := by
  rw [Bool.eq_iff_iff, find?, Option.isSome_map, List.find?_isSome]
  simp [ids]

/-- What is asked for is given as the shelf has it, whether it is held or not. -/
theorem records_get? {items : List (Value × Agent)} (hitems : ∀ item ∈ items, item.1.IsKey)
    {id : Value} (hid : id.IsKey) :
    (lookups (.ok items)).Records (Setting.inAgents (AgentDesk.get? id))
      (.ok (Shelf.find? items id)) [id] := by
  rintro past ⟨⟨shelf, cache⟩, admissions⟩ log ⟨hshelf, hids, hcache⟩
  have hheld := AgentCache.isSome_find? cache id
  cases hfind : AgentCache.find? cache id with
  | some found =>
      obtain ⟨entry, hentry, rfl⟩ := Option.map_eq_some_iff.1 hfind
      obtain ⟨hkey, _, ⟨⟩, hfound⟩ := hcache entry (List.mem_of_find?_eq_some hentry)
      have hsame : entry.1.same id = true := by simpa using List.find?_some hentry
      have hgiven : Shelf.find? items id = entry.2 :=
        (find?_congr hitems hkey hid hsame).symm.trans hfound.symm
      refine ⟨⟨⟨shelf, cache⟩, admissions⟩, [], ?_, ⟨hshelf, ?_, hcache⟩, trivial⟩
      · rw [Setting.inAgents, exec_within, AgentDesk.exec_get?_of_held hid.canBeKey hfind, hgiven,
          List.append_nil]
      · rw [firsts_snoc, addNew, ← hids, if_pos (by rw [← hheld, hfind]; rfl)]
  | none =>
      obtain ⟨other, later, hother, hexec⟩ :=
        AgentDesk.exec_get?_of_not_held hid.canBeKey hfind shelf log
      rw [hshelf] at hexec
      refine ⟨⟨⟨other, cache ++ [(id, Shelf.find? items id)]⟩, admissions⟩, later, ?_,
        ⟨hother.trans hshelf, ?_, ?_⟩, trivial⟩
      · rw [Setting.inAgents, exec_within, hexec]
      · rw [firsts_snoc, addNew, ← hids, if_neg (by rw [← hheld, hfind]; simp)]
        simp [AgentCache.ids]
      · intro entry hentry
        rcases List.mem_append.1 hentry with hentry | hentry
        · exact hcache entry hentry
        · obtain rfl := List.mem_singleton.1 hentry
          exact ⟨hid, items, rfl, rfl⟩

/-- A shelf that gives nothing leaves nothing to be held. -/
theorem records_get?_error {fault : Fault} {id : Value} (hkey : id.canBeKey = true) :
    (lookups (.error fault)).Records (Setting.inAgents (AgentDesk.get? id)) (.error fault) [] := by
  rintro past ⟨⟨shelf, cache⟩, admissions⟩ log ⟨hshelf, hids, hcache⟩
  have hempty : cache = [] := by
    cases cache with
    | nil => rfl
    | cons entry cache =>
        obtain ⟨-, _, ⟨⟩, -⟩ := hcache entry List.mem_cons_self
  subst hempty
  have hnew : AgentCache.find? [] id = none := rfl
  obtain ⟨other, later, hother, hexec⟩ := AgentDesk.exec_get?_of_not_held hkey hnew shelf log
  rw [hshelf] at hexec
  refine ⟨⟨⟨other, []⟩, admissions⟩, later, ?_,
    ⟨hother.trans hshelf, by rw [List.append_nil]; exact hids, hcache⟩, trivial⟩
  rw [Setting.inAgents, exec_within, hexec]

theorem asks_get? (hkeyed : KeyedAgents outcome) {id : Value} (hid : id.Canonical) :
    (lookups outcome).Asks (Setting.inAgents (AgentDesk.get? id)) [id] := by
  cases hkey : id.canBeKey with
  | false =>
      refine ⟨.error .wrongType, [], fun past run log hrun => ⟨run, [], ?_, ?_, trivial⟩,
        List.nil_prefix, fun _ h => nomatch h⟩
      · simp [Setting.inAgents, AgentDesk.get?, hkey]
      · rwa [List.append_nil]
  | true =>
      cases outcome with
      | ok items =>
          exact ⟨_, _, records_get? (hkeyed items rfl) ⟨hkey, hid⟩, List.prefix_rfl, fun _ _ => rfl⟩
      | error fault =>
          exact ⟨_, _, records_get?_error hkey, List.nil_prefix, fun _ h => nomatch h⟩

/-! ## Lowering -/

namespace Setting

variable {setting : Setting} {recipe : Recipe} {step : Step} {backend : Backend}

/-- What was reported before does not keep an agent out or let it in. -/
theorem asks_admits (id : Value) (project : Option Project) :
    (lookups outcome).Asks (inAdmissions (Admissions.admits .agents id project)) [] := by
  by_cases hreport : Admissions.Reportable project .agents
  · have hadmits : (lookups outcome).Records (inAdmissions (Admissions.admits .agents id project))
        (.ok ((Admissions.listsOf project .agents).lets fun entry => id.isAmong [entry])) [] := by
      rintro past ⟨agents, admissions⟩ log ⟨hshelf, hrest⟩
      refine ⟨⟨agents, ⟨admissions.promptPaths, Admissions.keep admissions.reported
        (Admissions.conflict? project .agents)⟩⟩,
        Admissions.reports admissions.reported (Admissions.conflict? project .agents), ?_,
        ⟨hshelf, by rwa [List.append_nil]⟩, trivial⟩
      rw [inAdmissions, exec_within, Admissions.exec_admits hreport]
    exact ⟨_, _, hadmits, List.prefix_rfl, fun _ _ => rfl⟩
  · have hfails : (lookups outcome).Records (inAdmissions (Admissions.admits .agents id project))
        (.error .wrongType) [] := by
      rintro past run log hrun
      refine ⟨run, [], ?_, by rwa [List.append_nil], trivial⟩
      rw [inAdmissions, exec_within, Admissions.admits,
        exec_bind_error (Admissions.exec_lists_of_not_reportable hreport _), List.append_nil]
    exact ⟨_, _, hfails, List.prefix_rfl, fun _ _ => rfl⟩

theorem asks_excludedBy? (agent : Agent) :
    (lookups outcome).Asks (setting.excludedBy? agent) [] := by
  unfold excludedBy?
  cases setting.project with
  | none => exact .pure none
  | some project => exact (asks_admits agent.id _).andThen fun _ => .pure _

theorem asks_lowerStep (hkeyed : KeyedAgents outcome) (hstep : step.agent.Canonical)
    (index number : Int) :
    (lookups outcome).Asks (setting.lowerStep recipe step index number backend) [step.agent] := by
  refine .attempt_bind fun title _ => (asks_get? hkeyed hstep).andGive fun found => ?_
  cases found with
  | none => exact .andThen (.tell _ fun _ => trivial) fun _ => .pure _
  | some agent =>
      refine (asks_excludedBy? agent).andThen fun excluded => ?_
      cases excluded with
      | none => exact .attempt _
      | some project => exact .andThen (.tell _ fun _ => trivial) fun _ => .pure _

theorem asks_lowerGroup (hkeyed : KeyedAgents outcome) {steps : List Step}
    (hsteps : ∀ step ∈ steps, step.agent.Canonical) :
    (lookups outcome).Asks (setting.lowerGroup recipe steps backend) (steps.map (·.agent)) := by
  have hgroups : (lookups outcome).Asks
      (steps.zipIdx.mapM fun entry => setting.lowerStep recipe entry.1 entry.2
        (stepNumber recipe entry.1) backend)
      (steps.zipIdx.flatMap fun entry => [entry.1.agent]) :=
    .mapM fun entry hentry => asks_lowerStep hkeyed
      (hsteps entry.1 (List.fst_mem_of_mem_zipIdx hentry)) _ _
  have hids : (steps.zipIdx.flatMap fun entry => [entry.1.agent]) = steps.map (·.agent) := by
    calc steps.zipIdx.flatMap (fun entry => [entry.1.agent])
        = (steps.zipIdx.map (·.1)).map (·.agent) := by rw [List.map_map, List.map_eq_flatMap]; rfl
      _ = steps.map (·.agent) := by rw [List.zipIdx_map_fst]
  rw [hids] at hgroups
  exact hgroups.andGive fun _ => .pure _

theorem asks_lowerLoop (hkeyed : KeyedAgents outcome) {steps : List Step}
    (hsteps : ∀ step ∈ steps, step.agent.Canonical) (hloop : recipe.loop = none → steps = []) :
    (lookups outcome).Asks (setting.lowerLoop recipe steps backend) (steps.map (·.agent)) := by
  unfold lowerLoop
  cases hrecipe : recipe.loop with
  | none =>
      rw [hloop hrecipe]
      exact .pure []
  | some loop =>
      cases steps with
      | nil => exact .pure []
      | cons step steps =>
          exact .attempt_bind fun _ _ => (asks_lowerGroup hkeyed hsteps).andGive fun _ => .pure _

/-- The agents of the steps in the order in which they are lowered. -/
def agentOrder (recipe : Recipe) : List Value :=
  match Partition.ofRecipe recipe with
  | .ok (partition, _) =>
      (partition.preLoop ++ partition.loopBody ++ partition.postLoop).map (·.agent)
  | .error _ => []

theorem asks_script (hkeyed : KeyedAgents outcome)
    (hsteps : ∀ step ∈ recipe.steps, step.agent.Canonical) (tool : Value) (time : String) :
    (lookups outcome).Asks (setting.script recipe tool time) (agentOrder recipe) := by
  unfold script
  refine .ite (.attempt_bind fun _ _ => .throw_bind _ _ _) ?_
  refine .attempt_bind fun backend _ => .attempt_bind ?_
  rintro ⟨partition, reports⟩ hpartition
  have hmem := fun step => @Partition.mem_of_ofRecipe recipe partition reports hpartition step
  refine .andThen (.tell _ fun _ => trivial) fun _ => .ite (.throw_bind _ _ _) ?_
  refine .attempt_bind fun header _ => ?_
  rw [agentOrder, hpartition]
  dsimp only
  rw [List.map_append, List.map_append, List.append_assoc (partition.preLoop.map _)]
  refine (asks_lowerGroup hkeyed fun step hstep => hsteps step (hmem step (.inl hstep))).bind
    fun before => ?_
  refine (asks_lowerLoop hkeyed (fun step hstep => hsteps step (hmem step (.inr (.inl hstep))))
    (Partition.loopBody_of_none hpartition)).bind fun loop => ?_
  exact (asks_lowerGroup hkeyed fun step hstep =>
    hsteps step (hmem step (.inr (.inr hstep)))).andGive fun behind => .pure _

theorem asks_compile (hkeyed : KeyedAgents outcome)
    (hsteps : ∀ step ∈ recipe.steps, step.agent.Canonical) (tool : Value) (time : String) :
    (lookups outcome).Asks (setting.compile recipe tool time) (agentOrder recipe) :=
  (asks_script hkeyed hsteps tool time).andGive fun _ => .attempt _

end Setting

/-! ## Compilations in turn -/

/-- What a run can be asked to compile. -/
structure Commission where
  recipe : Recipe
  tool : Value
  time : String

def Setting.fulfil (setting : Setting) (commission : Commission) : Work Run String :=
  setting.compile commission.recipe commission.tool commission.time

theorem AgentCache.find?_of_mem {cache : AgentCache}
    (hdistinct : (ids cache).Pairwise fun v w => v.same w = false) {entry : Value × Option Agent}
    (hentry : entry ∈ cache) : find? cache entry.1 = some entry.2 := by
  induction cache with
  | nil => cases hentry
  | cons first cache ih =>
      obtain ⟨hfirst, hrest⟩ := List.pairwise_cons.1 hdistinct
      rcases List.mem_cons.1 hentry with rfl | hentry
      · simp [find?]
      · have hnew : first.1.same entry.1 = false := hfirst entry.1 (List.mem_map_of_mem hentry)
        have hfound := ih hrest hentry
        unfold find? at hfound ⊢
        rwa [List.find?_cons, hnew]

/--
A run goes through some commissions as if each was its first: with the same
texts and the same faults. Its cache tells what it looked up: the different
ids that were asked for, in order of first use, with what the shelf gives for
them. What is held is not looked up again. A commission that is fulfilled asks
for the agents of its steps in turn; one that fails may stop on the way. The
time of a script decides nothing but its own line.
-/
structure Setting.Repeatable (setting : Setting) (fresh : Run) (commissions : List Commission) :
    Prop where
  answers : (inTurn fresh (commissions.map setting.fulfil)).1.map (·.1) =
    commissions.map fun commission => ((setting.fulfil commission).runFrom fresh).1
  asked : ∃ asked : Commission → List Value,
    (inTurn fresh (commissions.map setting.fulfil)).2.agents.cache.ids =
        firsts (commissions.flatMap asked) ∧
      ∀ commission ∈ commissions, asked commission <+: agentOrder commission.recipe ∧
        ((setting.fulfil commission).runFrom fresh).2.1.agents.cache.ids =
          firsts (asked commission) ∧
        ∀ text, ((setting.fulfil commission).runFrom fresh).1 = .ok text →
          asked commission = agentOrder commission.recipe
  distinct : (inTurn fresh (commissions.map setting.fulfil)).2.agents.cache.ids.Pairwise
    fun v w => v.same w = false
  given : ∀ entry ∈ (inTurn fresh (commissions.map setting.fulfil)).2.agents.cache,
    ((Shelf.get? entry.1).runFrom fresh.agents.shelf).1 = .ok entry.2
  held : ∀ entry ∈ (inTurn fresh (commissions.map setting.fulfil)).2.agents.cache,
    ∀ shelf log,
      exec (AgentDesk.get? entry.1)
          (⟨shelf, (inTurn fresh (commissions.map setting.fulfil)).2.agents.cache⟩, log) =
        (.ok entry.2,
          ⟨shelf, (inTurn fresh (commissions.map setting.fulfil)).2.agents.cache⟩, log)
  time : ∀ recipe tool first second run,
    SameButTime first second ((setting.compile recipe tool first.text).runFrom run).1
      ((setting.compile recipe tool second.text).runFrom run).1

/-- A tool that is there, one that is unknown, and the first again at another time. -/
def retryCommissions : List Commission :=
  [⟨Setting.retryRecipe, .text "cursor", "today"⟩, ⟨Setting.retryRecipe, .text "notepad", "today"⟩,
    ⟨Setting.retryRecipe, .text "cursor", "tomorrow"⟩]

end Playbook
