import Playbook.Proofs.Recipe.Compilation
import Playbook.Proofs.Recipe.Messages
import Playbook.Proofs.Recipe.Options

/-!
# Compilations that come to an end

A recipe with texts where a script shows them is compiled unless a tool does
not take its options or the bound of its loop is too long to be written.
-/

namespace Playbook

open Work Shell Shell.Node

/-! ## Words -/

/-- Whatever a script shows of a step is a text. -/
structure Step.Worded (step : Step) : Prop where
  id : ∃ name, step.id = .text name
  agent : ∃ name, step.agent = .text name
  task : ∃ s, step.task = .text s

/-- Whatever a script shows of a recipe is a text, and there is something to be done. -/
structure Recipe.Worded (recipe : Recipe) : Prop where
  id : ∃ name, recipe.id = .text name
  description : ∃ s, recipe.description = .text s
  filled : recipe.steps ≠ []
  steps : ∀ step ∈ recipe.steps, step.Worded

/-- The project and the feature of a setting have texts for their ids. -/
structure Setting.Worded (setting : Setting) : Prop where
  project : ∀ project ∈ setting.project, ∃ name, project.id = .text name
  feature : ∀ feature ∈ setting.feature, ∃ name, feature.id = .text name

namespace Recipe.Worded

variable {recipe : Recipe}

theorem canBeKeys (worded : recipe.Worded) :
    (recipe.steps.any fun step => !step.id.canBeKey) = false := by
  rw [List.any_eq_false]
  intro step hstep
  obtain ⟨name, hname⟩ := (worded.steps step hstep).id
  simp [hname, Value.canBeKey]

theorem exists_partition (worded : recipe.Worded) :
    ∃ partition reports, Partition.ofRecipe recipe = .ok (partition, reports) := by
  rw [Partition.ofRecipe]
  split
  · exact ⟨_, _, rfl⟩
  · rw [worded.canBeKeys]
    split
    · exact ⟨_, _, rfl⟩
    · rw [if_neg Bool.false_ne_true]
      dsimp only
      split <;> exact ⟨_, _, rfl⟩

end Recipe.Worded

/-! ## Agents -/

/-- The prompts of the agents are texts. -/
def Instructed (items : List (Value × Agent)) : Prop :=
  ∀ item ∈ items, ∃ s, item.2.prompt.system = .text s

theorem AgentDesk.succeeds_get? (items : List (Value × Agent)) (id : String) :
    SucceedsIff (fun desk : AgentDesk => desk.Serves items) True
      (fun found => found = Shelf.find? items (.text id)) (get? (.text id)) := by
  intro desk log serves
  unfold get?
  rw [if_neg (by simp [Value.canBeKey]), exec_bind_ok (exec_state _ _)]
  cases hcached : AgentCache.find? desk.cache (.text id) with
  | some agent =>
      obtain ⟨entry, hentry, rfl⟩ := Option.map_eq_some_iff.1 hcached
      have hsame := List.find?_some hentry
      refine ⟨.ok ?_, fun _ => serves⟩
      rw [serves.cache entry (List.mem_of_find?_eq_some hentry), Value.eq_of_same_text hsame]
  | none =>
      obtain ⟨read, hread⟩ := Shelf.exec_items serves.shelf log
      have hget : exec (within (·.shelf) (fun shelf desk => { desk with shelf })
          (Shelf.get? (.text id))) (desk, log) =
            (.ok (Shelf.find? items (.text id)), { desk with shelf := .ready items }, read) := by
        rw [exec_within, Shelf.get?, exec_bind_ok hread]
        rfl
      rw [exec_bind_ok hget]
      refine ⟨.ok rfl, fun _ => ⟨rfl, fun entry hentry => ?_⟩⟩
      rcases List.mem_append.1 hentry with hentry | hentry
      · exact serves.cache entry hentry
      · obtain rfl := List.mem_singleton.1 hentry
        rfl

namespace Setting

variable {setting : Setting} {recipe : Recipe} {step : Step} {backend : Backend}
  {items : List (Value × Agent)}

theorem succeeds_excludedBy? (worded : setting.Worded) (agent : Agent) :
    SucceedsIff (fun run : Run => run.agents.Serves items) True
      (fun excluded => excluded = none ↔ setting.letsIn agent = true)
      (setting.excludedBy? agent) := by
  unfold excludedBy?
  cases hproject : setting.project with
  | none => exact .pure (by simp [letsIn, hproject, Admissions.listsOf, Admission.lets])
  | some project =>
      have hreportable : Admissions.Reportable (some project) .agents := by
        rintro _ ⟨rfl⟩ -
        obtain ⟨name, hname⟩ := worded.project project hproject
        rw [hname]
        rfl
      have hlists : SucceedsIff (fun _ : Admissions => True) True
          (fun found => found = Admissions.listsOf (some project) .agents)
          (Admissions.lists (some project) .agents) := by
        intro admissions log _
        obtain ⟨s', hexec⟩ := Admissions.exec_lists hreportable (admissions, log)
        rw [hexec]
        exact ⟨.ok rfl, fun _ => trivial⟩
      have hadmits : SucceedsIff (fun _ : Admissions => True) True
          (fun admitted => admitted = setting.letsIn agent)
          (Admissions.admits .agents agent.id (some project)) := by
        refine hlists.andThen ?_
        rintro _ rfl
        exact .pure (by rw [letsIn, hproject])
      have hadmitted : SucceedsIff (fun run : Run => run.agents.Serves items) True
          (fun admitted => admitted = setting.letsIn agent)
          (inAdmissions (Admissions.admits .agents agent.id (some project))) :=
        hadmits.within (fun _ _ => trivial) fun _ _ serves _ => serves
      refine hadmitted.andThen ?_
      rintro _ rfl
      exact .pure (by simp)

/-! ## Steps -/

/-- A step is carried out by an agent that the project lets in. -/
def TakesPart (setting : Setting) (items : List (Value × Agent)) (step : Step) : Prop :=
  ∃ agent, Shelf.find? items step.agent = some agent ∧ setting.letsIn agent = true

theorem succeeds_stepTitle (worded : step.Worded) (number : Int) :
    Attempt.SucceedsIff True (fun _ => True) (stepTitle step number) := by
  obtain ⟨⟨id, hid⟩, ⟨agent, hagent⟩, -⟩ := worded
  unfold stepTitle
  rw [hid, hagent]
  exact .ok trivial

theorem succeedsIff_stepNodes (worded : step.Worded) {agent : Agent}
    (hsystem : ∃ s, agent.prompt.system = .text s) (index number : Int) :
    Attempt.SucceedsIff (backend.Takes (recipe.optionsFor backend.id)) AllRenderable
      (setting.stepNodes recipe step index number backend agent) := by
  obtain ⟨text, hsystem⟩ := hsystem
  have hinvocation : Attempt.SucceedsIff True
      (fun invocation => invocation.agent = agent ∧
        invocation.options = recipe.optionsFor backend.id)
      (setting.invocation recipe step index number backend agent) := by
    obtain ⟨task, htask⟩ := worded.task
    unfold invocation taskText
    rw [htask]
    exact .ok ⟨rfl, rfl⟩
  unfold stepNodes
  refine hinvocation.andThen fun invocation hparts => ?_
  have hcall := backend.succeedsIff_step (hparts.1 ▸ hsystem)
  rw [hparts.2] at hcall
  refine (hcall.bind fun call hrenderable =>
    (succeeds_stepTitle worded number).andThen fun title _ => .ok ?_).iff (by simp)
  have hbody : AllRenderable (setting.documentLoaders step ++ call ++
      backend.outputDocument invocation ++ guardNodes step) := by
    simp [allRenderable_documentLoaders, hrenderable, backend.allRenderable_outputDocument,
      allRenderable_guardNodes]
  simp only [allRenderable_append]
  exact ⟨⟨⟨by simp, allRenderable_conditioned hbody⟩, allRenderable_confirmation⟩, by simp⟩

theorem succeedsIff_lowerStep (worded : setting.Worded) (hstep : step.Worded)
    (instructed : Instructed items) (index number : Int) :
    SucceedsIff (fun run : Run => run.agents.Serves items)
      (setting.TakesPart items step → backend.Takes (recipe.optionsFor backend.id)) AllRenderable
      (setting.lowerStep recipe step index number backend) := by
  obtain ⟨name, hagent⟩ := hstep.agent
  unfold lowerStep
  refine (SucceedsIff.attempt (succeeds_stepTitle hstep number)).andThen fun title _ => ?_
  rw [hagent]
  refine ((AgentDesk.succeeds_get? items name).within (fun _ serves => serves)
    fun _ _ _ serves => serves).andThen ?_
  rintro _ rfl
  cases hfind : Shelf.find? items (.text name) with
  | none =>
      refine ((SucceedsIff.tell _).andThen fun _ _ =>
        SucceedsIff.pure (allRenderable_skipped _ _)).iff ?_
      simp [TakesPart, hagent, hfind]
  | some agent =>
      refine (succeeds_excludedBy? worded agent).andThen fun excluded hexcluded => ?_
      cases excluded with
      | some project =>
          refine ((SucceedsIff.tell _).andThen fun _ _ =>
            SucceedsIff.pure (allRenderable_skipped _ _)).iff ?_
          have hout : setting.letsIn agent = false := by simpa using hexcluded
          simp [TakesPart, hagent, hfind, hout]
      | none =>
          have hsystem : ∃ s, agent.prompt.system = .text s := by
            obtain ⟨item, hitem, rfl⟩ := Option.map_eq_some_iff.1 hfind
            exact instructed item (List.mem_of_find?_eq_some hitem)
          have hin : setting.letsIn agent = true := hexcluded.1 rfl
          refine (SucceedsIff.attempt (succeedsIff_stepNodes hstep hsystem index number)).iff ?_
          simp [TakesPart, hagent, hfind, hin]

theorem succeedsIff_lowerGroup (worded : setting.Worded) (instructed : Instructed items)
    {steps : List Step} (hsteps : ∀ step ∈ steps, step.Worded) :
    SucceedsIff (fun run : Run => run.agents.Serves items)
      (∀ step ∈ steps, setting.TakesPart items step → backend.Takes (recipe.optionsFor backend.id))
      AllRenderable (setting.lowerGroup recipe steps backend) := by
  unfold lowerGroup
  refine ((SucceedsIff.mapM fun entry hentry => succeedsIff_lowerStep worded
    (hsteps _ (List.fst_mem_of_mem_zipIdx hentry)) instructed _ _).bind fun groups hgroups =>
      SucceedsIff.pure ?_).iff ?_
  · rw [allRenderable_iff]
    intro node hnode
    obtain ⟨group, hgroup, hnode⟩ := List.mem_flatten.1 hnode
    exact allRenderable_iff.1 (hgroups group hgroup) node hnode
  · rw [and_true]
    constructor
    · intro h step hstep
      obtain ⟨index, hindex, rfl⟩ := List.mem_iff_getElem.1 hstep
      exact h (_, index) (List.mk_mem_zipIdx_iff_getElem?.2 (List.getElem?_eq_getElem hindex))
    · intro h entry hentry
      exact h _ (List.fst_mem_of_mem_zipIdx hentry)

/-! ## Loops -/

/-- The bound of the loop can be written, if there is something to be repeated. -/
def Limited (recipe : Recipe) (steps : List Step) : Prop :=
  steps ≠ [] → ∀ loop ∈ recipe.loop, (Value.int loop.maxIterations).isShowable = true

theorem succeedsIff_lowerLoop (worded : setting.Worded) (instructed : Instructed items)
    {steps : List Step} (hsteps : ∀ step ∈ steps, step.Worded)
    (hloop : recipe.loop = none → steps = []) :
    SucceedsIff (fun run : Run => run.agents.Serves items)
      (Limited recipe steps ∧ ∀ step ∈ steps,
        setting.TakesPart items step → backend.Takes (recipe.optionsFor backend.id))
      AllRenderable (setting.lowerLoop recipe steps backend) := by
  unfold lowerLoop
  cases hfound : recipe.loop with
  | none =>
      have hnone := hloop hfound
      exact (SucceedsIff.pure allRenderable_nil).iff (by simp [Limited, hnone])
  | some loop =>
      dsimp only
      by_cases hempty : steps = []
      · rw [if_pos (by simp [hempty])]
        exact (SucceedsIff.pure allRenderable_nil).iff (by simp [Limited, hempty])
      · rw [if_neg (by simp [hempty])]
        refine ((SucceedsIff.attempt (Value.succeedsIff_shown _)).bind fun _ _ =>
          (succeedsIff_lowerGroup worded instructed hsteps).bind fun body hbody =>
            SucceedsIff.pure (allRenderable_loopNodes loop steps hbody)).iff ?_
        simp [Limited, hempty, hfound]

/-! ## Headers -/

theorem succeeds_commentOn (title : String) {id : Option Value}
    (h : ∀ v ∈ id, ∃ name, v = .text name) :
    Attempt.SucceedsIff True AllRenderable (commentOn title id) := by
  cases id with
  | none => exact .ok allRenderable_nil
  | some v =>
      obtain ⟨name, rfl⟩ := h v rfl
      exact .of_ok rfl (by simp)

theorem succeeds_descriptionComment (hrecipe : recipe.Worded) :
    Attempt.SucceedsIff True AllRenderable (descriptionComment recipe) := by
  obtain ⟨text, htext⟩ := hrecipe.description
  unfold descriptionComment
  rw [htext]
  split
  · exact .of_ok rfl (by simp)
  · exact .ok allRenderable_nil

theorem succeeds_header (worded : setting.Worded) (hrecipe : recipe.Worded) (backend : Backend)
    (time : String) :
    Attempt.SucceedsIff True AllRenderable (setting.header recipe backend time) := by
  have hfeature : ∀ v ∈ setting.feature.map (·.id), ∃ name, v = .text name := by
    intro v hv
    obtain ⟨feature, hfeature, rfl⟩ := Option.mem_map.1 hv
    exact worded.feature feature hfeature
  have hproject : ∀ v ∈ setting.project.map (·.id), ∃ name, v = .text name := by
    intro v hv
    obtain ⟨project, hproject, rfl⟩ := Option.mem_map.1 hv
    exact worded.project project hproject
  have hid : ∀ v ∈ some recipe.id, ∃ name, v = .text name := by
    rintro _ ⟨rfl⟩
    exact hrecipe.id
  unfold header
  refine (succeeds_commentOn _ hfeature).andThen fun feature hfeature => ?_
  refine (succeeds_commentOn _ hid).andThen fun name hname => ?_
  refine (succeeds_descriptionComment hrecipe).andThen fun description hdescription => ?_
  refine (succeeds_commentOn _ hproject).andThen fun project hproject => .ok ?_
  simp [hfeature, hname, hdescription, hproject]

/-! ## Scripts -/

/-- What is asked of a tool, and of the bound of the loop, for a recipe to become a script. -/
@[mk_iff]
structure Compilable (setting : Setting) (items : List (Value × Agent)) (recipe : Recipe)
    (backend : Backend) (partition : Partition) : Prop where
  options : ∀ step ∈ partition.preLoop ++ partition.loopBody ++ partition.postLoop,
    setting.TakesPart items step → backend.Takes (recipe.optionsFor backend.id)
  limit : Limited recipe partition.loopBody

/-- A recipe becomes a script exactly where this is what the tool and the loop allow. -/
theorem succeedsIff_compile (worded : setting.Worded) (hrecipe : recipe.Worded)
    (instructed : Instructed items) {tool : Value}
    (htool : setting.registry.getNamed tool = .ok backend) {partition : Partition} {reports : Log}
    (hpartition : Partition.ofRecipe recipe = .ok (partition, reports)) (time : String) :
    SucceedsIff (fun run : Run => run.agents.Serves items)
      (setting.Compilable items recipe backend partition) (fun _ => True)
      (setting.compile recipe tool time) := by
  have hmem (step : Step) (hstep : step ∈ partition.preLoop ∨ step ∈ partition.loopBody ∨
      step ∈ partition.postLoop) : step.Worded :=
    hrecipe.steps step (Partition.mem_of_ofRecipe hpartition hstep)
  have hscript : SucceedsIff (fun run : Run => run.agents.Serves items)
      (setting.Compilable items recipe backend partition) AllRenderable
      (setting.script recipe tool time) := by
    unfold script
    rw [if_neg (by simpa using hrecipe.filled)]
    refine (SucceedsIff.attempt (.of_ok htool rfl)).andThen ?_
    rintro _ rfl
    refine (SucceedsIff.attempt (.of_ok hpartition rfl)).andThen ?_
    rintro _ rfl
    refine (SucceedsIff.tell reports).andThen fun _ _ => ?_
    rw [hrecipe.canBeKeys, if_neg Bool.false_ne_true]
    refine (SucceedsIff.attempt
      (succeeds_header worded hrecipe backend time)).andThen fun header hheader => ?_
    refine ((succeedsIff_lowerGroup worded instructed fun step hstep =>
      hmem step (.inl hstep)).bind fun before hbefore =>
        (succeedsIff_lowerLoop worded instructed (fun step hstep => hmem step (.inr (.inl hstep)))
          (Partition.loopBody_of_none hpartition)).bind fun loop hloop =>
            (succeedsIff_lowerGroup worded instructed fun step hstep =>
              hmem step (.inr (.inr hstep))).bind fun behind hbehind => .pure ?_).iff ?_
    · simp [hheader, hbefore, hloop, hbehind, allRenderable_setup, allRenderable_declarations]
    · simp [compilable_iff, or_imp, forall_and]
      tauto
  unfold compile
  have hrender (nodes : List Node) (hnodes : AllRenderable nodes) :
      SucceedsIff (fun run : Run => run.agents.Serves items) True (fun _ => True)
        (attempt (render nodes 0)) := by
    obtain ⟨text, htext⟩ := exists_render hnodes 0
    exact .attempt (.of_ok htext trivial)
  exact (hscript.bind hrender).iff (by simp)

end Setting

end Playbook
