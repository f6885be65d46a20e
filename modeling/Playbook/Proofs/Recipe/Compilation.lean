import Playbook.Proofs.Recipe.Lowering
import Playbook.Proofs.Resolution.Admission

/-!
# Scripts of whole recipes

A compilation looks its agents up one after the other and remembers them. The
script that comes of it runs as the recipe is carried out by those agents.
-/

namespace Playbook

open Work Shell Shell.Node Shell.Course

/-! ## Agents -/

/-- A desk that answers from a collection. -/
structure AgentDesk.Serves (desk : AgentDesk) (items : List (Value × Agent)) : Prop where
  shelf : desk.shelf.Gives items
  cache : ∀ entry ∈ desk.cache, entry.2 = Shelf.find? items entry.1

theorem AgentCache.find?_of_prefix {cache later : AgentCache} {id : Value}
    {found : Option Agent} (h : cache <+: later) (hfound : find? cache id = some found) :
    find? later id = some found := by
  obtain ⟨more, rfl⟩ := h
  obtain ⟨entry, hentry, rfl⟩ := Option.map_eq_some_iff.1 hfound
  rw [find?, List.find?_append, hentry]
  rfl

theorem AgentDesk.of_exec_get?_ok {desk desk' : AgentDesk} {id : Value} {found : Option Agent}
    {log log' : Log} (h : exec (get? id) (desk, log) = (.ok found, desk', log')) :
    (∀ items, desk.Serves items → desk'.Serves items) ∧ desk.cache <+: desk'.cache ∧
      AgentCache.find? desk'.cache id = some found := by
  unfold get? at h
  by_cases hkey : id.canBeKey
  · rw [hkey, Bool.not_true, if_neg Bool.false_ne_true, exec_bind_ok (exec_state _ _)] at h
    cases hcached : AgentCache.find? desk.cache id with
    | some agent =>
        rw [hcached] at h
        cases h
        exact ⟨fun _ serves => serves, List.prefix_rfl, hcached⟩
    | none =>
        rw [hcached] at h
        obtain ⟨agent, ⟨read, log₁⟩, hget, h⟩ := of_exec_bind_ok h
        obtain ⟨shelf, hshelf, rfl⟩ := of_exec_within_ok hget
        obtain ⟨known, ⟨_, _⟩, hitems, hfind⟩ := of_exec_bind_ok hshelf
        rw [if_pos hkey] at hfind
        cases hfind
        cases h
        refine ⟨fun items serves => ?_, List.prefix_append _ _, ?_⟩
        · obtain ⟨log₂, hgiven⟩ := Shelf.exec_items serves.shelf log
          rw [hgiven] at hitems
          cases hitems
          refine ⟨rfl, fun entry hentry => ?_⟩
          rcases List.mem_append.1 hentry with hentry | hentry
          · exact serves.cache entry hentry
          · obtain rfl := List.mem_singleton.1 hentry
            rfl
        · have hnone := Option.map_eq_none_iff.1 hcached
          simp [AgentCache.find?, List.find?_append, hnone]
  · rw [Bool.not_eq_true] at hkey
    rw [hkey, Bool.not_false, if_pos rfl] at h
    cases h

namespace Setting

variable {setting : Setting} {recipe : Recipe} {backend : Backend}
variable {items : List (Value × Agent)} {run run' : Run} {log log' : Log}

/-- Whether the project lets an agent in. -/
def letsIn (setting : Setting) (agent : Agent) : Bool :=
  (Admissions.listsOf setting.project .agents).lets fun entry => agent.id.isAmong [entry]

theorem of_exec_excludedBy?_ok {agent : Agent} {excluded : Option Project}
    (h : exec (setting.excludedBy? agent) (run, log) = (.ok excluded, run', log')) :
    run'.agents = run.agents ∧ (excluded = none ↔ setting.letsIn agent) := by
  unfold excludedBy? at h
  cases hproject : setting.project with
  | none =>
      rw [hproject] at h
      cases h
      simp [letsIn, hproject, Admissions.listsOf, Admission.lets]
  | some project =>
      rw [hproject] at h
      obtain ⟨admitted, ⟨_, _⟩, hadmits, h⟩ := of_exec_bind_ok h
      obtain ⟨_, hinner, rfl⟩ := of_exec_within_ok hadmits
      obtain ⟨found, _, hlists, hfound⟩ := of_exec_bind_ok hinner
      cases hfound
      rw [Admissions.of_exec_lists_ok hlists, ← hproject] at h
      cases h
      rw [letsIn]
      cases hlets : (Admissions.listsOf setting.project .agents).lets fun entry =>
        agent.id.isAmong [entry] <;> simp [hproject]

/-- The agent of a step that takes part, by what was looked up. -/
def castFrom (setting : Setting) (items : List (Value × Agent)) (cache : AgentCache)
    (step : Step) : Option Agent :=
  ((AgentCache.find? cache step.agent).getD (Shelf.find? items step.agent)).filter setting.letsIn

theorem castFrom_eq_of_find? {cache : AgentCache} {step : Step} {found : Option Agent}
    (h : AgentCache.find? cache step.agent = some found) :
    setting.castFrom items cache step = found.filter setting.letsIn := by
  rw [castFrom, h, Option.getD_some]

/-- Something holds of the agents of the steps behind a part of a compilation, and later too. -/
structure Cast (setting : Setting) (items : List (Value × Agent)) (run run' : Run)
    (R : (Step → Option Agent) → Prop) : Prop where
  serves : run.agents.Serves items → run'.agents.Serves items
  known : run.agents.cache <+: run'.agents.cache
  holds : ∀ cache, run'.agents.cache <+: cache → R (setting.castFrom items cache)

namespace Cast

variable {run₁ run₂ run₃ : Run} {R R' : (Step → Option Agent) → Prop}

theorem unchanged (h : ∀ agentOf, R agentOf) : Cast setting items run run R :=
  ⟨id, List.prefix_rfl, fun _ _ => h _⟩

theorem mono (h : Cast setting items run run' R) (hR : ∀ agentOf, R agentOf → R' agentOf) :
    Cast setting items run run' R' :=
  ⟨h.serves, h.known, fun cache hcache => hR _ (h.holds cache hcache)⟩

theorem and (h : Cast setting items run₁ run₂ R) (h' : Cast setting items run₂ run₃ R') :
    Cast setting items run₁ run₃ fun agentOf => R agentOf ∧ R' agentOf :=
  ⟨fun serves => h'.serves (h.serves serves), h.known.trans h'.known,
    fun cache hcache => ⟨h.holds cache (h'.known.trans hcache), h'.holds cache hcache⟩⟩

end Cast

/-! ## Nodes by the agents of the steps -/

/-- The nodes of a step: those of its agent, or a note that it is left out. -/
def Emits (setting : Setting) (recipe : Recipe) (backend : Backend)
    (agentOf : Step → Option Agent) (step : Step) (index number : Int) (nodes : List Node) :
    Prop :=
  match agentOf step with
  | none => ∃ note message, nodes = skipped step note message
  | some agent => setting.stepNodes recipe step index number backend agent = .ok nodes

/-- The nodes of a group of steps with their places in the group. -/
inductive EmitsAll (setting : Setting) (recipe : Recipe) (backend : Backend)
    (agentOf : Step → Option Agent) : List (Step × Nat) → List Node → Prop where
  | nil : EmitsAll setting recipe backend agentOf [] []
  | cons {entry : Step × Nat} {entries : List (Step × Nat)} {nodes others : List Node} :
      setting.Emits recipe backend agentOf entry.1 entry.2 (stepNumber recipe entry.1) nodes →
      EmitsAll setting recipe backend agentOf entries others →
      EmitsAll setting recipe backend agentOf (entry :: entries) (nodes ++ others)

/-- The nodes of the loop; there are none if there is no step to repeat. -/
inductive EmitsLoop (setting : Setting) (recipe : Recipe) (backend : Backend)
    (agentOf : Step → Option Agent) (steps : List Step) : List Node → Prop where
  | none : recipe.loop = none ∨ steps = [] → EmitsLoop setting recipe backend agentOf steps []
  | some {loop : Loop} {body : List Node} : recipe.loop = some loop → steps ≠ [] →
      EmitsAll setting recipe backend agentOf steps.zipIdx body →
      EmitsLoop setting recipe backend agentOf steps (loopNodes loop steps body)

/-- The parts of a script that are not the same for all steps. -/
structure Outline where
  partition : Partition
  header : List Node
  before : List Node
  loop : List Node
  behind : List Node

/-- The last line of a script. -/
def completion (setting : Setting) : Node :=
  .line ("echo \"✅ " ++ (if setting.feature.isSome then "Feature" else "Recipe") ++ " completed!\"")

/-- What stands in front of the steps. -/
def Outline.front (outline : Outline) (setting : Setting) (recipe : Recipe) (backend : Backend) :
    List Node :=
  outline.header ++ setting.setup recipe backend ++ setting.declarations recipe

/-- The nodes of the steps. -/
def Outline.steps (outline : Outline) : List Node := outline.before ++ outline.loop ++ outline.behind

/-- The parts are those of a recipe whose steps have some agents. -/
structure Outline.Fits (outline : Outline) (setting : Setting) (recipe : Recipe)
    (backend : Backend) (time : String) (agentOf : Step → Option Agent) : Prop where
  partition : ∃ reports, Partition.ofRecipe recipe = .ok (outline.partition, reports)
  header : setting.header recipe backend time = .ok outline.header
  before : setting.EmitsAll recipe backend agentOf outline.partition.preLoop.zipIdx outline.before
  loop : setting.EmitsLoop recipe backend agentOf outline.partition.loopBody outline.loop
  behind : setting.EmitsAll recipe backend agentOf outline.partition.postLoop.zipIdx outline.behind

theorem cast_of_lowerStep {step : Step} {index number : Int} {nodes : List Node}
    (h : exec (setting.lowerStep recipe step index number backend) (run, log) =
      (.ok nodes, run', log')) :
    Cast setting items run run' fun agentOf =>
      setting.Emits recipe backend agentOf step index number nodes := by
  unfold lowerStep at h
  obtain ⟨title, _, htitle, h⟩ := of_exec_bind_ok h
  obtain ⟨_, rfl⟩ := of_exec_attempt_ok htitle
  obtain ⟨found, ⟨run₂, log₂⟩, hget, h⟩ := of_exec_bind_ok h
  obtain ⟨desk, hdesk, rfl⟩ := of_exec_within_ok hget
  obtain ⟨hserves, hknown, hfind⟩ := AgentDesk.of_exec_get?_ok hdesk
  have hcast (cache : AgentCache) (hcache : desk.cache <+: cache) :
      setting.castFrom items cache step = found.filter setting.letsIn :=
    castFrom_eq_of_find? (AgentCache.find?_of_prefix hcache hfind)
  cases found with
  | none =>
      cases h
      refine ⟨hserves items, hknown, fun cache hcache => ?_⟩
      rw [Emits, hcast cache hcache]
      exact ⟨_, _, rfl⟩
  | some agent =>
      obtain ⟨excluded, ⟨run₃, log₃⟩, hexcluded, h⟩ := of_exec_bind_ok h
      obtain ⟨hagents, hlets⟩ := of_exec_excludedBy?_ok hexcluded
      obtain rfl : desk = run₃.agents := hagents.symm
      cases excluded with
      | some project =>
          cases h
          refine ⟨hserves items, hknown, fun cache hcache => ?_⟩
          have hout : setting.letsIn agent = false := by
            by_contra hin
            cases hlets.2 (by simpa using hin)
          rw [Emits, hcast cache hcache, Option.filter_some_neg hout]
          exact ⟨_, _, rfl⟩
      | none =>
          obtain ⟨hnodes, hrun⟩ := of_exec_attempt_ok h
          cases hrun
          refine ⟨hserves items, hknown, fun cache hcache => ?_⟩
          rw [Emits, hcast cache hcache, Option.filter_some_pos (hlets.1 rfl)]
          exact hnodes

theorem cast_of_lowerGroup {steps : List Step} {nodes : List Node}
    (h : exec (setting.lowerGroup recipe steps backend) (run, log) = (.ok nodes, run', log')) :
    Cast setting items run run' fun agentOf =>
      setting.EmitsAll recipe backend agentOf steps.zipIdx nodes := by
  obtain ⟨groups, _, hgroups, hflatten⟩ := of_exec_bind_ok h
  cases hflatten
  clear h
  generalize steps.zipIdx = entries at hgroups
  induction entries generalizing run log groups with
  | nil =>
      cases hgroups
      exact Cast.unchanged fun _ => .nil
  | cons entry entries ih =>
      rw [List.mapM_cons] at hgroups
      obtain ⟨group, ⟨run₁, log₁⟩, hstep, hgroups⟩ := of_exec_bind_ok hgroups
      obtain ⟨rest, ⟨run₂, log₂⟩, hrest, hgroups⟩ := of_exec_bind_ok hgroups
      cases hgroups
      exact ((cast_of_lowerStep hstep).and (ih _ hrest)).mono fun _ h => .cons h.1 h.2

theorem cast_of_lowerLoop {steps : List Step} {nodes : List Node}
    (h : exec (setting.lowerLoop recipe steps backend) (run, log) = (.ok nodes, run', log')) :
    Cast setting items run run' fun agentOf =>
      setting.EmitsLoop recipe backend agentOf steps nodes := by
  unfold lowerLoop at h
  cases hloop : recipe.loop with
  | none =>
      rw [hloop] at h
      cases h
      exact Cast.unchanged fun _ => .none (.inl hloop)
  | some loop =>
      simp only [hloop] at h
      by_cases hempty : steps.isEmpty
      · rw [if_pos hempty] at h
        cases h
        exact Cast.unchanged fun _ => .none (.inr (List.isEmpty_iff.1 hempty))
      · rw [if_neg hempty] at h
        obtain ⟨_, _, hlimit, h⟩ := of_exec_bind_ok h
        obtain ⟨-, rfl⟩ := of_exec_attempt_ok hlimit
        obtain ⟨body, ⟨run₁, log₁⟩, hbody, h⟩ := of_exec_bind_ok h
        cases h
        apply (cast_of_lowerGroup hbody).mono
        intro agentOf hemits
        exact .some hloop (fun hnil => hempty (List.isEmpty_iff.2 hnil)) hemits

variable (items) in
theorem cast_of_script {tool : Value} {time : String} {nodes : List Node}
    (h : exec (setting.script recipe tool time) (run, log) = (.ok nodes, run', log')) :
    ∃ backend, ∃ outline : Outline, setting.registry.getNamed tool = .ok backend ∧
      nodes = outline.front setting recipe backend ++ outline.steps ++ [setting.completion] ∧
      Cast setting items run run' (outline.Fits setting recipe backend time) := by
  unfold script at h
  by_cases hsteps : recipe.steps.isEmpty
  · rw [if_pos hsteps] at h
    obtain ⟨_, _, _, h⟩ := of_exec_bind_ok h
    cases h
  rw [if_neg hsteps] at h
  obtain ⟨backend, _, hget, h⟩ := of_exec_bind_ok h
  obtain ⟨hbackend, rfl⟩ := of_exec_attempt_ok hget
  obtain ⟨⟨partition, reports⟩, _, hparts, h⟩ := of_exec_bind_ok h
  obtain ⟨hpartition, rfl⟩ := of_exec_attempt_ok hparts
  rw [exec_bind_ok (exec_tell _ _ _)] at h
  by_cases hkeys : recipe.steps.any fun step => !step.id.canBeKey
  · rw [if_pos hkeys] at h
    cases h
  rw [if_neg hkeys] at h
  obtain ⟨header, _, hhead, h⟩ := of_exec_bind_ok h
  obtain ⟨hheader, rfl⟩ := of_exec_attempt_ok hhead
  obtain ⟨before, ⟨run₁, log₁⟩, hbefore, h⟩ := of_exec_bind_ok h
  obtain ⟨loop, ⟨run₂, log₂⟩, hloop, h⟩ := of_exec_bind_ok h
  obtain ⟨behind, ⟨run₃, log₃⟩, hbehind, h⟩ := of_exec_bind_ok h
  cases h
  refine ⟨backend, ⟨partition, header, before, loop, behind⟩, hbackend, ?_, ?_⟩
  · simp [Outline.front, Outline.steps, completion]
  · apply (((cast_of_lowerGroup hbefore).and (cast_of_lowerLoop hloop)).and
      (cast_of_lowerGroup hbehind)).mono
    rintro agentOf ⟨⟨hbefore, hloop⟩, hbehind⟩
    exact ⟨⟨reports, hpartition⟩, hheader, hbefore, hloop, hbehind⟩

/-- A script is put together from the parts of an outline. -/
theorem exists_outline {tool : Value} {time : String} {nodes : List Node} {s s' : Run × Log}
    (h : exec (setting.script recipe tool time) s = (.ok nodes, s')) :
    ∃ backend agentOf, ∃ outline : Outline, setting.registry.getNamed tool = .ok backend ∧
      nodes = outline.front setting recipe backend ++ outline.steps ++ [setting.completion] ∧
      outline.Fits setting recipe backend time agentOf := by
  obtain ⟨backend, outline, hbackend, hnodes, hcast⟩ := cast_of_script [] h
  exact ⟨backend, _, outline, hbackend, hnodes, hcast.holds _ List.prefix_rfl⟩

/-! ## Running the nodes -/

section

variable {agentOf : Step → Option Agent} {nodes : List Node}

theorem runAll_of_emits {step : Step} {index number : Nat}
    (h : setting.Emits recipe backend agentOf step index number nodes) (answers : Nat → Bool) :
    runAll answers nodes =
      recipe.taken answers backend agentOf (setting.eventLine recipe backend agentOf) step index
        number := by
  unfold Emits at h
  split at h
  · case h_1 hagent =>
    obtain ⟨note, message, rfl⟩ := h
    rw [runAll_skipped, Recipe.taken, hagent]
    rfl
  · case h_2 hagent => exact runAll_stepNodes hagent h

theorem runAll_of_emitsAll (steps : List (Step × Nat))
    (numbers : ∀ entry ∈ steps, stepNumber recipe entry.1 = entry.2)
    (h : setting.EmitsAll recipe backend agentOf (steps.map (·.1)).zipIdx nodes)
    (answers : Nat → Bool) :
    runAll answers nodes =
      recipe.group answers backend agentOf (setting.eventLine recipe backend agentOf) steps := by
  unfold Recipe.group
  rw [List.zipIdx_map] at h
  replace numbers (entry : (Step × Nat) × Nat) (hentry : entry ∈ steps.zipIdx) :
      stepNumber recipe entry.1.1 = entry.1.2 := numbers entry.1 (List.fst_mem_of_mem_zipIdx hentry)
  generalize steps.zipIdx = entries at h numbers
  induction entries generalizing nodes with
  | nil =>
      cases h
      exact runAll_nil answers
  | cons entry entries ih =>
      obtain ⟨hnumber, hnumbers⟩ := List.forall_mem_cons.1 numbers
      cases h with
      | cons hemits hrest =>
          rw [Prod.map_fst, hnumber] at hemits
          rw [runAll_append, runAll_of_emits hemits, ih hrest hnumbers]
          rfl

theorem runAll_of_emitsLoop
    (numbers : ∀ entry ∈ recipe.looped, stepNumber recipe entry.1 = entry.2)
    (h : setting.EmitsLoop recipe backend agentOf (recipe.looped.map (·.1)) nodes)
    (answers : Nat → Bool) :
    runAll answers nodes =
      recipe.looping answers backend agentOf (setting.eventLine recipe backend agentOf) := by
  unfold Recipe.looping
  cases h with
  | none hnone =>
      rcases hnone with hloop | hempty
      · simp [hloop]
      · have hlooped := List.map_eq_nil_iff.1 hempty
        split <;> simp [hlooped]
  | some hloop hsome hbody =>
      have hlooped : recipe.looped.isEmpty = false := by simpa using hsome
      rw [runAll_loopNodes, runAll_of_emitsAll _ numbers hbody]
      simp only [hloop, hlooped, Bool.false_eq_true, if_false]

theorem runAll_of_fits {outline : Outline} {time : String} (distinct : recipe.DistinctIds)
    (fits : outline.Fits setting recipe backend time agentOf) (answers : Nat → Bool) :
    runAll answers (outline.front setting recipe backend ++ outline.steps ++ [setting.completion]) =
      recipe.conduct answers backend agentOf (setting.eventLine recipe backend agentOf) := by
  obtain ⟨⟨reports, hpartition⟩, hheader, hbefore, hloop, hbehind⟩ := fits
  rw [Partition.ofRecipe_eq distinct hpartition] at hbefore hloop hbehind
  have hahead := runAll_of_emitsAll recipe.ahead
    (fun entry hentry => distinct.stepNumber_eq (List.mem_of_mem_filter hentry)) hbefore answers
  have hlooping := runAll_of_emitsLoop
    (fun entry hentry => distinct.stepNumber_eq (List.mem_of_mem_filter hentry)) hloop answers
  have hrest := runAll_of_emitsAll recipe.behind
    (fun entry hentry => distinct.stepNumber_eq (recipe.mem_numbered_of_mem_behind hentry)) hbehind
    answers
  have hdone : run answers setting.completion = pass := by
    simp [completion, statement, begins, responseHead, announcementHead]
  simp only [Outline.front, Outline.steps, runAll_append, runAll_cons, runAll_nil,
    runAll_header hheader, runAll_setup, runAll_declarations, hahead, hlooping, hrest, hdone,
    pass_andThen, andThen_pass, andThen_assoc]
  simp [Recipe.conduct]

end

/-- The agent that the collection has under an id, however the id is written. -/
theorem exists_castFrom (cache : AgentCache) (known : ∀ entry ∈ cache,
    entry.2 = Shelf.find? items entry.1) (step : Step) :
    ∃ name : Value, name.same step.agent ∧
      setting.castFrom items cache step = (Shelf.find? items name).filter setting.letsIn := by
  unfold castFrom
  cases hfound : AgentCache.find? cache step.agent with
  | none => exact ⟨step.agent, Value.same_refl _, rfl⟩
  | some found =>
      obtain ⟨entry, hentry, rfl⟩ := Option.map_eq_some_iff.1 hfound
      refine ⟨entry.1, by simpa using List.find?_some hentry, ?_⟩
      rw [Option.getD_some, known entry (List.mem_of_find?_eq_some hentry)]

/--
A script runs as its recipe is carried out. Whatever the answers, it ends in
the same way after the same number of tests, and the statements that announce
and invoke steps are those of the recipe's events, in their order. A step has
the agent of the collection under its id if the project lets that agent in.
-/
theorem runAll_script {tool : Value} {time : String} {nodes : List Node}
    (distinct : recipe.DistinctIds) (serves : run.agents.Serves items)
    (h : exec (setting.script recipe tool time) (run, log) = (.ok nodes, run', log')) :
    ∃ backend agentOf, setting.registry.getNamed tool = .ok backend ∧
      (∀ step : Step, ∃ name : Value, name.same step.agent ∧
        agentOf step = (Shelf.find? items name).filter setting.letsIn) ∧
      ∀ answers, runAll answers nodes .start =
        let carriedOut := recipe.conduct answers backend agentOf id .start
        (carriedOut.1, carriedOut.2.map (setting.eventLine recipe backend agentOf)) := by
  obtain ⟨backend, outline, hbackend, rfl, hcast⟩ := cast_of_script items h
  have hfollows (answers : Nat → Bool) (agentOf : Step → Option Agent) :
      Follows (setting.eventLine recipe backend agentOf)
        (recipe.conduct answers backend agentOf (setting.eventLine recipe backend agentOf))
        (recipe.conduct answers backend agentOf id) :=
    recipe.follows_conduct
  refine ⟨backend, setting.castFrom items run'.agents.cache, hbackend,
    exists_castFrom _ (hcast.serves serves).cache, fun answers => ?_⟩
  rw [runAll_of_fits distinct (hcast.holds _ List.prefix_rfl)]
  exact hfollows answers _ .start

/-- A step that is tried until its check passes, and one that a known file makes needless. -/
def retryRecipe : Recipe :=
  let step (id agent : String) (condition : Condition) : Step :=
    { (default : Step) with
      id := .text id, agent := .text agent, task := .text "Do it.", condition := some condition }
  let check : Check := { (default : Check) with value := "done" }
  { (default : Recipe) with
    id := .text "retry"
    steps := [step "plan" "nobody" ⟨.always, none⟩, step "fix" "coder" ⟨.onSuccess, some check⟩,
      step "ship" "coder" ⟨.fileExists, some check⟩]
    loop := some ⟨["fix"], 2, some ⟨.command, "make test", ""⟩⟩ }

def retryAgents : List (Value × Agent) :=
  [(.text "coder", { (default : Agent) with id := .text "coder" })]

def retrySetting : Setting := ⟨none, none, "docs", "logs", Registry.builtIn⟩

def retryRun : Run := ⟨⟨.ready retryAgents, []⟩, ⟨[], []⟩⟩

theorem exists_script_retry :
    ∃ nodes s', exec (retrySetting.script retryRecipe (.text "cursor") "today") (retryRun, []) =
      (.ok nodes, s') :=
  exists_exec_of_isOk (by decide +kernel)

theorem runAll_script_retry :
    retryRecipe.DistinctIds ∧ retryRun.agents.Serves retryAgents ∧
      ∃ nodes run' log',
        exec (retrySetting.script retryRecipe (.text "cursor") "today") (retryRun, []) =
          (.ok nodes, run', log') ∧
        ∃ backend agentOf, retrySetting.registry.getNamed (.text "cursor") = .ok backend ∧
          (∀ step : Step, ∃ name : Value, name.same step.agent ∧
            agentOf step = (Shelf.find? retryAgents name).filter retrySetting.letsIn) ∧
          ∀ answers, runAll answers nodes .start =
            let carriedOut := retryRecipe.conduct answers backend agentOf id .start
            (carriedOut.1,
              carriedOut.2.map (retrySetting.eventLine retryRecipe backend agentOf)) := by
  have hdistinct : retryRecipe.DistinctIds := by
    unfold Recipe.DistinctIds
    decide +kernel
  have hserves : retryRun.agents.Serves retryAgents := ⟨rfl, nofun⟩
  obtain ⟨nodes, ⟨run', log'⟩, hscript⟩ := exists_script_retry
  exact ⟨hdistinct, hserves, nodes, run', log', hscript, runAll_script hdistinct hserves hscript⟩

end Setting

end Playbook
