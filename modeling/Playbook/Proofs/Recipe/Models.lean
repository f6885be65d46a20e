import Playbook.Proofs.Recipe.Conversation

/-!
# Models of the calls

A step that names a model is called with it. For the other steps the model of
the recipe goes before that of the feature or the project, while the header of
a script takes the feature and the project before the recipe. So the header
names the model of these calls unless the recipe names another one.
-/

namespace Playbook

open Work Shell Shell.Node

/-! ## Nodes inside of others -/

namespace Shell.Node

/-- Nodes that stand next to each other, at any depth. -/
inductive Contains (part : List Node) : List Node → Prop where
  | here (ahead behind : List Node) : Contains part (ahead ++ part ++ behind)
  | body {opener closer : String} {body : List Node} {other : Option (List Node)}
      (ahead behind : List Node) : Contains part body →
      Contains part (ahead ++ .block opener body other closer :: behind)
  | other {opener closer : String} {body other : List Node} (ahead behind : List Node) :
      Contains part other →
      Contains part (ahead ++ .block opener body (some other) closer :: behind)

namespace Contains

variable {part nodes : List Node}

theorem append_left (h : Contains part nodes) (first : List Node) :
    Contains part (first ++ nodes) := by
  cases h with
  | here ahead behind => simpa [List.append_assoc] using Contains.here (first ++ ahead) behind
  | body ahead behind h => simpa [List.append_assoc] using Contains.body (first ++ ahead) behind h
  | other ahead behind h =>
      simpa [List.append_assoc] using Contains.other (first ++ ahead) behind h

theorem append_right (h : Contains part nodes) (last : List Node) :
    Contains part (nodes ++ last) := by
  cases h with
  | here ahead behind => simpa [List.append_assoc] using Contains.here ahead (behind ++ last)
  | body ahead behind h => simpa [List.append_assoc] using Contains.body ahead (behind ++ last) h
  | other ahead behind h =>
      simpa [List.append_assoc] using Contains.other ahead (behind ++ last) h

end Contains

end Shell.Node

/-! ## Calls with a model -/

theorem ModelSources.model?_eq (sources : ModelSources) :
    sources.model? = (sources.feature.bind (·.model) <|> sources.project.bind (·.aiTools.model) <|>
      sources.agent.bind (·.defaults.model) <|> sources.prompt.bind (·.model)) := by
  unfold model? choice? layers
  cases sources.feature.bind (·.model) <;> cases sources.project.bind (·.aiTools.model) <;>
    cases sources.agent.bind (·.defaults.model) <;> cases sources.prompt.bind (·.model) <;> rfl

namespace Backend

/--
Nodes call a tool with a model. The two tools that are driven by a command
line take a flag, with at most that for the conversation in front of it; for
the others a comment says which model to choose.
-/
def CallsWith (backend : Backend) (call : Invocation) (model : String) (nodes : List Node) : Prop :=
  match backend with
  | .claudeCode => ∃ flags, Node.line ("RESPONSE=$(claude @" ++ call.agent.id.display ++ " " ++
      Text.join " " ((if call.continuation then ["\"$\x7bCONTINUE_ARGS[@]\x7d\""] else []) ++
        ["--model \"" ++ escape model ++ "\""] ++ flags) ++
      " --print \"" ++ escape call.task ++ "\")") ∈ nodes
  | .copilotCli => ∃ flags, Node.line ("RESPONSE=$(copilot -p \"" ++
      escape ("@" ++ call.agent.id.display ++ " " ++ call.task) ++ "\"" ++
      (" " ++ Text.join " " ((if call.continuation then ["--continue"] else []) ++
        ["--model \"" ++ escape model ++ "\""] ++ flags)) ++ ")") ∈ nodes
  | .manual _ => Node.comment ("Model: " ++ model) ∈ nodes

variable {call : Invocation} {model : String} {nodes : List Node}

theorem modelFlag_eq (h : call.model = some model) (given : model ≠ "") :
    modelFlag call = ["--model \"" ++ escape model ++ "\""] := by
  have hgiven : model.isEmpty = false := by simpa using given
  simp [modelFlag, h, hgiven]

theorem callsWith_of_step {backend : Backend} (h : backend.step call = .ok nodes)
    (hmodel : call.model = some model) (given : model ≠ "") :
    backend.CallsWith call model nodes := by
  cases backend with
  | claudeCode =>
      obtain ⟨system, _, h⟩ := Attempt.of_bind_ok h
      obtain ⟨flags, hflags, h⟩ := Attempt.of_bind_ok h
      obtain ⟨allowed, _, hflags⟩ := Attempt.of_bind_ok hflags
      obtain ⟨disallowed, _, hflags⟩ := Attempt.of_bind_ok hflags
      obtain ⟨mode, _, hflags⟩ := Attempt.of_bind_ok hflags
      cases hflags
      cases h
      rw [modelFlag_eq hmodel given]
      refine ⟨joinedFlag "--allowedTools" allowed ++ joinedFlag "--disallowedTools" disallowed ++
        ["--permission-mode \"" ++ escape mode ++ "\"",
          "--append-system-prompt \"$SYSTEM_PROMPT\""], ?_⟩
      simp only [List.append_assoc, List.mem_append, List.mem_cons, true_or, or_true]
  | copilotCli =>
      obtain ⟨flags, hflags, h⟩ := Attempt.of_bind_ok h
      obtain ⟨lists, _, hflags⟩ := Attempt.of_bind_ok hflags
      cases hflags
      cases h
      rw [modelFlag_eq hmodel given]
      refine ⟨(switches.filter fun entry => (option call entry.1).isGiven).map (·.2) ++
        lists.flatten, List.mem_cons_of_mem _ (List.mem_cons.2 (.inl ?_))⟩
      simp
  | manual tool =>
      cases h
      have hgiven : model.isEmpty = false := by simpa using given
      simp [CallsWith, manualStep, hmodel, hgiven]

end Backend

namespace Setting

variable {setting : Setting} {recipe : Recipe} {step : Step} {backend : Backend}
variable {agentOf : Step → Option Agent} {nodes : List Node}

theorem contains_conditioned (step : Step) (part ahead behind : List Node) :
    Contains part (conditioned step (ahead ++ part ++ behind)) := by
  have hpart : Contains part (ahead ++ part ++ behind) := .here ahead behind
  unfold conditioned
  split
  · exact .other [] [] hpart
  · exact .body [_] [] hpart
  · exact hpart.append_left [_]
  · exact hpart

/-- The call of a step with an agent stands among the nodes. -/
def Places (setting : Setting) (recipe : Recipe) (backend : Backend)
    (agentOf : Step → Option Agent) (nodes : List Node) (entry : Step × Nat) (call : Invocation) :
    Prop :=
  setting.IsCall recipe backend agentOf entry call ∧
    ∃ part, backend.step call = .ok part ∧ Contains part nodes

theorem Places.mono {others : List Node} {entry : Step × Nat} {call : Invocation}
    (hcontains : ∀ part, Contains part nodes → Contains part others)
    (h : setting.Places recipe backend agentOf nodes entry call) :
    setting.Places recipe backend agentOf others entry call := by
  obtain ⟨hcall, part, hpart, hnodes⟩ := h
  exact ⟨hcall, part, hpart, hcontains part hnodes⟩

theorem exists_places_of_stepNodes {entry : Step × Nat} {agent : Agent}
    (hagent : agentOf entry.1 = some agent)
    (h : setting.stepNodes recipe entry.1 entry.2 (stepNumber recipe entry.1) backend agent =
      .ok nodes) :
    ∃ call, setting.Places recipe backend agentOf nodes entry call := by
  obtain ⟨call, part, title, hcall, hpart, -, rfl⟩ := of_stepNodes_ok h
  refine ⟨call, ⟨agent, hagent, hcall⟩, part, hpart, ?_⟩
  rw [List.append_assoc _ (backend.outputDocument call) (guardNodes entry.1)]
  exact (((contains_conditioned entry.1 part _ _).append_left _).append_right _).append_right _

theorem exists_places_of_emitsAll {entries : List (Step × Nat)}
    (h : setting.EmitsAll recipe backend agentOf entries nodes) :
    ∃ calls, List.Forall₂ (setting.Places recipe backend agentOf nodes)
      (takenSteps agentOf entries) calls := by
  induction h with
  | nil => exact ⟨[], .nil⟩
  | @cons entry entries nodes others hemits hrest ih =>
      obtain ⟨calls, hcalls⟩ := ih
      replace hcalls := hcalls.imp fun _ _ => Places.mono fun part h => h.append_left nodes
      unfold Emits at hemits
      split at hemits
      · rename_i hnone
        exact ⟨calls, takenSteps_cons_of_none hnone entries ▸ hcalls⟩
      · rename_i agent hagent
        obtain ⟨call, hcall⟩ := exists_places_of_stepNodes hagent hemits
        refine ⟨call :: calls, ?_⟩
        rw [takenSteps_cons_of_some hagent]
        exact .cons (hcall.mono fun part h => h.append_right others) hcalls

/-- The loop has the calls of the steps in it; without a loop no step is in it. -/
theorem exists_places_of_emitsLoop {steps : List Step} (hloop : recipe.loop = none → steps = [])
    (h : setting.EmitsLoop recipe backend agentOf steps nodes) :
    ∃ calls, List.Forall₂ (setting.Places recipe backend agentOf nodes)
      (takenSteps agentOf steps.zipIdx) calls := by
  cases h with
  | none hnone =>
      obtain rfl := hnone.elim hloop id
      exact ⟨[], .nil⟩
  | @some loop body hsome _ hbody =>
      obtain ⟨calls, hcalls⟩ := exists_places_of_emitsAll hbody
      refine ⟨calls, hcalls.imp fun _ _ => Places.mono fun part h => ?_⟩
      exact .body [_] [_] ((h.append_left _).append_right _)

/-! ## Scripts -/

/-- The steps that are carried out, with their places in their groups. -/
def Outline.taken (outline : Outline) (agentOf : Step → Option Agent) : List (Step × Nat) :=
  takenSteps agentOf outline.partition.preLoop.zipIdx ++
    takenSteps agentOf outline.partition.loopBody.zipIdx ++
    takenSteps agentOf outline.partition.postLoop.zipIdx

theorem Outline.Fits.loopBody_eq_nil {outline : Outline} {time : String}
    (fits : outline.Fits setting recipe backend time agentOf) (hloop : recipe.loop = none) :
    outline.partition.loopBody = [] := by
  obtain ⟨reports, hpartition⟩ := fits.partition
  by_contra hsome
  obtain ⟨loop, hmem, -⟩ := (Partition.loopBody_ne_nil_iff hpartition).1 hsome
  rw [hloop] at hmem
  cases hmem

theorem Outline.Fits.exists_places {outline : Outline} {time : String}
    (fits : outline.Fits setting recipe backend time agentOf) :
    ∃ calls, List.Forall₂ (setting.Places recipe backend agentOf outline.steps)
      (outline.taken agentOf) calls := by
  obtain ⟨first, hfirst⟩ := exists_places_of_emitsAll fits.before
  obtain ⟨looped, hlooped⟩ := exists_places_of_emitsLoop fits.loopBody_eq_nil fits.loop
  obtain ⟨last, hlast⟩ := exists_places_of_emitsAll fits.behind
  refine ⟨first ++ looped ++ last, List.rel_append (List.rel_append ?_ ?_) ?_⟩
  · exact hfirst.imp fun _ _ => Places.mono fun part h => (h.append_right _).append_right _
  · exact hlooped.imp fun _ _ => Places.mono fun part h => (h.append_left _).append_right _
  · exact hlast.imp fun _ _ => Places.mono fun part h => h.append_left _

/-- The model that the header names, if it names one. -/
def headerModel (setting : Setting) (recipe : Recipe) : Option String :=
  ModelSources.model? { feature := setting.feature, project := setting.project } <|> recipe.model

/-- The header says which model it names and where that comes from, or that there is none. -/
theorem modelHeader_eq (setting : Setting) (recipe : Recipe) :
    (setting.headerModel recipe = none ∧ setting.modelHeader recipe = "agent defaults") ∨
      ∃ model source, setting.headerModel recipe = some model ∧
        setting.modelHeader recipe = model ++ " (" ++ source ++ ")" := by
  unfold headerModel modelHeader ModelSources.model?
  cases ModelSources.choice? { feature := setting.feature, project := setting.project } with
  | some choice => exact .inr ⟨choice.model, choice.layer.label, rfl, rfl⟩
  | none =>
      cases recipe.model with
      | some model =>
          refine .inr ⟨model, "recipe-level", rfl, ?_⟩
          rw [String.append_assoc, String.append_assoc]
          rfl
      | none => exact .inl ⟨rfl, rfl⟩

theorem mem_header {time : String} (h : setting.header recipe backend time = .ok nodes) :
    Node.comment ("Model: " ++ setting.modelHeader recipe) ∈ nodes := by
  obtain ⟨feature, _, h⟩ := Attempt.of_bind_ok h
  obtain ⟨name, _, h⟩ := Attempt.of_bind_ok h
  obtain ⟨description, _, h⟩ := Attempt.of_bind_ok h
  obtain ⟨project, _, h⟩ := Attempt.of_bind_ok h
  cases h
  simp

/-- The layers by which a call gets its model, the agent behind those of the header. -/
theorem stepModel_eq (setting : Setting) (recipe : Recipe) (step : Step) (agent : Agent) :
    setting.stepModel recipe step (some agent) =
      (step.model <|> recipe.model <|> setting.headerModel recipe <|> agent.defaults.model) := by
  rw [stepModel, headerModel, ModelSources.model?_eq, ModelSources.model?_eq]
  cases step.model <;> cases recipe.model <;> cases setting.feature.bind (·.model) <;>
    cases setting.project.bind (·.aiTools.model) <;> simp

/-- All calls of steps without a model of their own are made with this one. -/
def Truthful (model : String) (calls : List Invocation) : Prop :=
  ∀ call ∈ calls, call.step.model = none → call.model = some model

theorem Places.model_eq {entry : Step × Nat} {call : Invocation}
    (h : setting.Places recipe backend agentOf nodes entry call) :
    call.model = (call.step.model <|> recipe.model <|> setting.headerModel recipe <|>
      call.agent.defaults.model) := by
  obtain ⟨⟨agent, _, hcall⟩, -⟩ := h
  obtain ⟨task, _, hcall⟩ := Attempt.of_bind_ok hcall
  cases hcall
  exact setting.stepModel_eq recipe entry.1 agent

theorem truthful_iff {calls : List Invocation} {model : String}
    (hmodels : ∀ call ∈ calls, call.model = (call.step.model <|> recipe.model <|>
      setting.headerModel recipe <|> call.agent.defaults.model))
    (hheader : setting.headerModel recipe = some model) :
    Truthful model calls ↔
      (∀ own, recipe.model = some own → own = model) ∨ ∀ call ∈ calls, call.step.model ≠ none := by
  constructor
  · intro htruthful
    by_cases hown : ∀ call ∈ calls, call.step.model ≠ none
    · exact .inr hown
    · push Not at hown
      obtain ⟨call, hcall, hnone⟩ := hown
      refine .inl fun own hrecipe => ?_
      have hsome := htruthful call hcall hnone
      rw [hmodels call hcall, hnone, hrecipe] at hsome
      exact Option.some.inj hsome
  · rintro (hrecipe | hown) call hcall hnone
    · rw [hmodels call hcall, hnone, hheader]
      cases hsome : recipe.model with
      | none => rfl
      | some own => exact congrArg some (hrecipe own hsome)
    · exact (hown call hcall hnone).elim

theorem Places.step_eq {entry : Step × Nat} {call : Invocation}
    (h : setting.Places recipe backend agentOf nodes entry call) : call.step = entry.1 := by
  obtain ⟨⟨agent, _, hcall⟩, -⟩ := h
  obtain ⟨task, _, hcall⟩ := Attempt.of_bind_ok hcall
  cases hcall
  rfl

/--
The header of a script says which model it names, the first that the feature,
the project and the recipe have. A call has the model of its step, then that
of the recipe, then the one that the header names, then that of its agent, and
its nodes hand that model to the tool. So the steps without a model are called
with the one that the header names exactly if the recipe names no other one,
or if there is no such step.
-/
theorem models_of_script (items : List (Value × Agent)) {run run' : Run} {log log' : Log}
    {tool : Value} {time : String}
    (h : exec (setting.script recipe tool time) (run, log) = (.ok nodes, run', log')) :
    ∃ backend agentOf, ∃ outline : Outline, setting.registry.getNamed tool = .ok backend ∧
      (run.agents.Serves items → ∀ step : Step, ∃ name : Value, name.same step.agent ∧
        agentOf step = (Shelf.find? items name).filter setting.letsIn) ∧
      nodes = outline.front setting recipe backend ++ outline.steps ++ [setting.completion] ∧
      outline.Fits setting recipe backend time agentOf ∧
      Node.comment ("Model: " ++ setting.modelHeader recipe) ∈ outline.header ∧
      ∃ calls, List.Forall₂ (setting.Places recipe backend agentOf outline.steps)
          (outline.taken agentOf) calls ∧
        (∀ call ∈ calls, call.model = (call.step.model <|> recipe.model <|>
            setting.headerModel recipe <|> call.agent.defaults.model) ∧
          ∀ model, call.model = some model → model ≠ "" →
            ∃ part, backend.CallsWith call model part ∧ Contains part outline.steps) ∧
        ∀ model, setting.headerModel recipe = some model →
          (Truthful model calls ↔ (∀ own, recipe.model = some own → own = model) ∨
            ∀ call ∈ calls, call.step.model ≠ none) := by
  obtain ⟨backend, outline, hbackend, hnodes, hcast⟩ := cast_of_script items h
  have fits := hcast.holds _ List.prefix_rfl
  obtain ⟨calls, hcalls⟩ := fits.exists_places
  refine ⟨backend, _, outline, hbackend,
    fun serves => exists_castFrom _ (hcast.serves serves).cache, hnodes, fits,
    mem_header fits.header, calls, hcalls, fun call hcall => ?_,
    fun model => truthful_iff fun call hcall => ?_⟩
  · obtain ⟨entry, -, hentry⟩ := exists_left_of_mem hcalls hcall
    refine ⟨hentry.model_eq, fun model hmodel given => ?_⟩
    obtain ⟨-, part, hpart, hcontains⟩ := hentry
    exact ⟨part, Backend.callsWith_of_step hpart hmodel given, hcontains⟩
  · obtain ⟨entry, -, hentry⟩ := exists_left_of_mem hcalls hcall
    exact hentry.model_eq

/-- A recipe with one step, which names a model for its steps. -/
def opusRecipe : Recipe :=
  { (default : Recipe) with
    id := .text "review"
    steps := [{ (default : Step) with
      id := .text "read", agent := .text "coder", task := .text "Read it." }]
    model := some "opus" }

/-- A project that names another model. -/
def sonnetSetting : Setting :=
  { retrySetting with
    project := some { (default : Project) with
      id := .text "shop"
      aiTools := { (default : AiTools) with model := some "sonnet", agents := ⟨[], []⟩ } } }

theorem exists_script_opus :
    ∃ nodes s', exec (sonnetSetting.script opusRecipe (.text "copilot-cli") "today")
      (retryRun, []) = (.ok nodes, s') :=
  exists_exec_of_isOk (by decide +kernel)

/-- The header names the model of the project, and the step is called with that of the recipe. -/
theorem models_of_script_opus :
    ∃ nodes run' log', exec (sonnetSetting.script opusRecipe (.text "copilot-cli") "today")
        (retryRun, []) = (.ok nodes, run', log') ∧
      sonnetSetting.modelHeader opusRecipe = "sonnet (project-level)" ∧
      ∃ backend, ∃ outline : Outline,
        nodes = outline.front sonnetSetting opusRecipe backend ++ outline.steps ++
          [sonnetSetting.completion] ∧
        Node.comment ("Model: " ++ sonnetSetting.modelHeader opusRecipe) ∈ outline.header ∧
        ∃ call part, call.step.model = none ∧ call.model = some "opus" ∧
          backend.CallsWith call "opus" part ∧ Contains part outline.steps ∧
          ∃ calls, call ∈ calls ∧ ¬ Truthful "sonnet" calls := by
  obtain ⟨nodes, ⟨run', log'⟩, hscript⟩ := exists_script_opus
  obtain ⟨backend, agentOf, outline, -, hagents, hnodes, fits, hheader, calls, hplaced, hmodels,
    htruthful⟩ := models_of_script retryAgents hscript
  obtain ⟨read, hsteps, hread, hmodel⟩ : ∃ read, opusRecipe.steps = [read] ∧
      read.agent = .text "coder" ∧ read.model = none := ⟨_, rfl, rfl, rfl⟩
  have hagent : ∃ agent, agentOf read = some agent := by
    obtain ⟨name, hsame, hagent⟩ := hagents serves_retryRun read
    rw [hread] at hsame
    rw [hagent, Value.eq_of_same_text hsame]
    simp [Shelf.find?, retryAgents, letsIn, sonnetSetting, Admissions.listsOf, AiTools.listsFor,
      Admission.lets]
  obtain ⟨agent, hagent⟩ := hagent
  obtain ⟨reports, hpartition⟩ := fits.partition
  have hgroup : outline.partition.preLoop = [read] := by
    rw [← hsteps, ← (Prod.mk.inj (Except.ok.inj hpartition)).1]
    rfl
  have htaken : (read, 0) ∈ outline.taken agentOf := by
    rw [Outline.taken, hgroup, List.zipIdx_cons, takenSteps_cons_of_some hagent]
    simp
  obtain ⟨call, hcall, hplaces⟩ := exists_right_of_mem hplaced htaken
  have hnone : call.step.model = none := by rw [hplaces.step_eq, hmodel]
  obtain ⟨hmodel, hcalled⟩ := hmodels call hcall
  rw [hnone] at hmodel
  obtain ⟨part, hpart, hcontains⟩ := hcalled "opus" hmodel (by decide)
  refine ⟨nodes, run', log', hscript, rfl, backend, outline, hnodes, hheader, call, part, hnone,
    hmodel, hpart, hcontains, calls, hcall, ?_⟩
  rw [htruthful "sonnet" rfl]
  rintro (hown | hown)
  · exact absurd (hown "opus" rfl) (by decide)
  · exact hown call hcall hnone

end Setting

end Playbook
