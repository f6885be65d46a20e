import Playbook.Proofs.Recipe.Parts
import Playbook.Proofs.Shell.Documents
import Playbook.Proofs.Value.Reading
import Playbook.Proofs.Work

/-!
# Scripts and the recipes they come from

The script of a recipe runs as the recipe is carried out: with the same
answers, it announces and invokes the same steps in the same order.
-/

namespace Playbook

open Shell Shell.Node Shell.Course

/-! ## Documents -/

namespace Setting

variable {answers : Nat → Bool}

theorem runAll_documentLoaders (setting : Setting) (step : Step) :
    runAll answers (setting.documentLoaders step) = incidental step.includeDocuments.length := by
  have hloaders : ∀ pairs : List (String × String),
      (∀ entry ∈ pairs, ∃ rest, entry.2 = "DOC_CONTENT_" ++ rest) →
      runAll answers (pairs.map fun entry =>
        let place := documentPath setting.docsDir entry.1
        choice ("if [ -f \"" ++ place ++ "\" ]; then")
          [.line (entry.2 ++ "=$(cat \"" ++ place ++ "\")")]
          [.line (entry.2 ++ "=\"[Document not found: " ++ escape entry.1 ++ "]\"")]) =
        incidental pairs.length := by
    intro pairs hnames
    induction pairs with
    | nil => simp
    | cons entry pairs ih =>
        obtain ⟨rest, hname⟩ := hnames entry List.mem_cons_self
        have hrest := ih fun other hother => hnames other (List.mem_cons_of_mem _ hother)
        rw [List.map_cons, runAll_cons, hrest, List.length_cons, Nat.add_comm, incidental_add]
        refine congrArg (Course.andThen · _) ?_
        rw [run_choice answers (by simp [isTest, begins])]
        simp [hname, statement, begins, responseHead, announcementHead]
  unfold documentLoaders
  split
  · case isTrue hempty => simp [List.isEmpty_iff.1 hempty]
  · have hlength : (step.includeDocuments.zip (documentVariables step.includeDocuments)).length =
        step.includeDocuments.length := by
      simp [documentVariables, length_documentVariablesFrom]
    rw [runAll_cons, run_comment, pass_andThen, ← hlength]
    refine hloaders _ fun entry hentry => ?_
    obtain ⟨rest, hname, -⟩ := exists_of_mem_documentVariables (List.of_mem_zip hentry).2
    exact ⟨rest, hname⟩

/-! ## Conditions -/

theorem runAll_refusal (reason : String) : runAll answers (refusal reason) = finish := by
  simp [refusal, statement, begins, responseHead, announcementHead]

theorem runAll_checkNodes (check : Check) :
    runAll answers (checkNodes check) = ask answers finish pass := by
  unfold checkNodes
  cases check.inspection with
  | contains => simp [run_when answers, isTest, begins, runAll_refusal]
  | regex =>
      simp [run_when answers, isTest, begins, runAll_refusal, statement, responseHead,
        announcementHead]
  | command => simp [run_when answers, isTest, begins, runAll_refusal]
  | userApproval =>
      simp [run_when answers, isTest, begins, runAll_refusal, statement, responseHead,
        announcementHead]

theorem runAll_guardNodes (step : Step) :
    runAll answers (guardNodes step) = step.guarded answers := by
  unfold guardNodes Step.guarded
  rcases step.condition with _ | ⟨_ | _ | _ | _ | _, _ | check⟩ <;> simp [runAll_checkNodes]

theorem runAll_confirmation (step : Step) :
    runAll answers (if step.waitForConfirmation then confirmation else []) =
      step.confirmed answers := by
  unfold Step.confirmed
  split
  · simp [confirmation, run_when answers, isTest, statement, begins, responseHead,
      announcementHead]
  · simp

theorem runAll_conditioned (step : Step) (body : List Node) :
    runAll answers (conditioned step body) = step.conditioned answers (runAll answers body) := by
  unfold conditioned Step.conditioned
  rcases step.condition with _ | ⟨_ | _ | _ | _ | _, _ | check⟩ <;>
    simp [run_choice answers, isTest, statement, begins, responseHead, announcementHead]

end Setting

/-! ## Tools -/

namespace Shell

/-- The first statement among some nodes that sets the response of a step. -/
def responseIn : List Node → String
  | [] => ""
  | .line text :: nodes => if begins responseHead text then text else responseIn nodes
  | _ :: nodes => responseIn nodes

@[simp] theorem responseIn_when (opener : String) (body nodes : List Node) :
    responseIn (.when opener body :: nodes) = responseIn nodes := rfl

/-- Nodes without such a statement. -/
def SetsNoResponse (nodes : List Node) : Prop :=
  ∀ others, responseIn (nodes ++ others) = responseIn others

theorem setsNoResponse_comments (texts : List α) (text : α → String) :
    SetsNoResponse (texts.map fun a => .comment (text a)) := by
  intro others
  induction texts with
  | nil => rfl
  | cons a texts ih => simpa [responseIn] using ih

end Shell

namespace Backend

variable {answers : Nat → Bool} {invocation : Invocation} {nodes : List Node}

theorem runAll_systemPrompt (answers : Nat → Bool) (h : systemPrompt invocation = .ok nodes) :
    runAll answers nodes = incidental 1 ∧ SetsNoResponse nodes := by
  unfold systemPrompt at h
  dsimp only at h
  split at h
  · obtain ⟨trimmed, _, h⟩ := Attempt.of_bind_ok h
    obtain ⟨text, _, h⟩ := Attempt.of_bind_ok h
    cases h
    simp [run_when answers, isTest, systemPromptLine, SetsNoResponse, responseIn, statement,
      begins, responseHead, announcementHead]
  · cases h
    simp [run_when answers, isTest, systemPromptLine, SetsNoResponse, responseIn, statement,
      begins, responseHead, announcementHead]

theorem runAll_claudeStep (h : claudeStep invocation = .ok nodes) :
    runAll answers nodes =
      (incidental (claudeCode.testsBefore invocation.continuation)).andThen
        (note (responseIn nodes)) := by
  unfold claudeStep at h
  obtain ⟨system, hsystem, h⟩ := Attempt.of_bind_ok h
  obtain ⟨flags, _, h⟩ := Attempt.of_bind_ok h
  replace hsystem := runAll_systemPrompt answers hsystem
  have htwo : (incidental 2 : Course String) = (incidental 1).andThen (incidental 1) :=
    incidental_add 1 1
  cases h
  cases invocation.continuation <;> cases invocation.chainStart <;>
    simp [run_when answers, hsystem.1, hsystem.2 _, responseIn, resumeConversation,
      captureConversation, testsBefore, htwo, isTest, statement, begins, responseHead,
      announcementHead]

theorem runAll_copilotStep (h : copilotStep invocation = .ok nodes) :
    runAll answers nodes = note (responseIn nodes) := by
  obtain ⟨flags, _, h⟩ := Attempt.of_bind_ok h
  cases h
  simp [responseIn, statement, begins, responseHead, announcementHead]

theorem runAll_comments (answers : Nat → Bool) (texts : List α) (text : α → String) :
    runAll answers (texts.map fun a => .comment (text a)) = pass := by
  induction texts with
  | nil => simp
  | cons a texts ih => simp [ih]

theorem runAll_manualStep (tool : ManualTool) (invocation : Invocation) :
    runAll answers (manualStep tool invocation) =
      note (responseIn (manualStep tool invocation)) := by
  have hrun := runAll_comments answers invocation.documents
    fun path => "  - " ++ documentPath invocation.docsDir path
  have hresponse := setsNoResponse_comments invocation.documents
    fun path => "  - " ++ documentPath invocation.docsDir path
  unfold manualStep
  rcases invocation.model with _ | model
  · by_cases hdocuments : invocation.documents = [] <;>
      simp [hdocuments, hrun, hresponse _, responseIn, statement, begins, responseHead,
        announcementHead]
  · by_cases hmodel : model = "" <;> by_cases hdocuments : invocation.documents = [] <;>
      simp [hmodel, hdocuments, hrun, hresponse _, responseIn, statement, begins, responseHead,
        announcementHead]

/-- The nodes of a tool set the response once, behind the tests of the tool. -/
theorem runAll_step {backend : Backend} (h : backend.step invocation = .ok nodes) :
    runAll answers nodes =
      (incidental (backend.testsBefore invocation.continuation)).andThen
        (note (responseIn nodes)) := by
  cases backend with
  | claudeCode => exact runAll_claudeStep h
  | copilotCli => exact runAll_copilotStep h
  | manual tool =>
      cases h
      exact runAll_manualStep tool invocation

theorem runAll_outputDocument (backend : Backend) (invocation : Invocation) :
    runAll answers (backend.outputDocument invocation) =
      incidental (backend.testsBehind invocation.step) := by
  unfold outputDocument testsBehind
  cases invocation.step.outputDocument with
  | none => simp
  | some path =>
      cases backend.isManual <;>
        simp [run_when answers, isTest, statement, begins, responseHead, announcementHead]

end Backend

/-! ## Steps -/

namespace Setting

/-- The statement that announces a step. -/
def announcement (step : Step) (number : Int) : String :=
  "echo \"▶️  " ++ ("Step " ++ toString number ++ ": " ++ step.id.display ++ " (" ++
    step.agent.display ++ ")") ++ "\""

/-- The statement that invokes a step with its agent and sets the response. -/
def response (setting : Setting) (recipe : Recipe) (backend : Backend)
    (agentOf : Step → Option Agent) (step : Step) (index number : Int) : String :=
  match agentOf step with
  | none => ""
  | some agent =>
      match (setting.invocation recipe step index number backend agent).bind backend.step with
      | .ok nodes => responseIn nodes
      | .error _ => ""

/-- The statement of a script that stands for an event. -/
def eventLine (setting : Setting) (recipe : Recipe) (backend : Backend)
    (agentOf : Step → Option Agent) : Event → String
  | .announced step number => announcement step number
  | .invoked step index number => setting.response recipe backend agentOf step index number

variable {setting : Setting} {recipe : Recipe} {step : Step} {backend : Backend} {agent : Agent}
variable {agentOf : Step → Option Agent} {answers : Nat → Bool} {nodes : List Node}

theorem stepTitle_eq {number : Int} {title : String} (h : stepTitle step number = .ok title) :
    announcement step number = "echo \"▶️  " ++ title ++ "\"" := by
  obtain ⟨id, hid, h⟩ := Attempt.of_bind_ok h
  obtain ⟨name, hname, h⟩ := Attempt.of_bind_ok h
  cases h
  rw [announcement, (Value.shown_eq_ok_iff.1 hid).2, (Value.shown_eq_ok_iff.1 hname).2]

theorem statement_announcement (step : Step) (number : Int) :
    statement (announcement step number) = note (announcement step number) := by
  simp [statement, announcement, begins, responseHead, announcementHead]

theorem of_stepNodes_ok {index number : Int}
    (h : setting.stepNodes recipe step index number backend agent = .ok nodes) :
    ∃ invocation call title, setting.invocation recipe step index number backend agent =
        .ok invocation ∧ backend.step invocation = .ok call ∧ stepTitle step number = .ok title ∧
      nodes = [.comment title, .line ("echo \"▶️  " ++ title ++ "\"")] ++
        conditioned step (setting.documentLoaders step ++ call ++
          backend.outputDocument invocation ++ guardNodes step) ++
        (if step.waitForConfirmation then confirmation else []) ++ [.line "echo \"\"", .blank] := by
  obtain ⟨invocation, hinvocation, h⟩ := Attempt.of_bind_ok h
  obtain ⟨call, hcall, h⟩ := Attempt.of_bind_ok h
  obtain ⟨title, htitle, h⟩ := Attempt.of_bind_ok h
  exact ⟨invocation, call, title, hinvocation, hcall, htitle, (Except.ok.inj h).symm⟩

/-- A step is skipped, since its agent is unknown or kept out, or has the nodes of its agent. -/
theorem of_exec_lowerStep_ok {index number : Int} {s s' : Run × Log}
    (h : Work.exec (setting.lowerStep recipe step index number backend) s = (.ok nodes, s')) :
    (∃ note, nodes = skipped step note ("agent " ++ step.agent.display ++ " not found")) ∨
      ∃ agent : Agent,
        (∃ note, nodes = skipped step note ("agent " ++ agent.id.display ++ " excluded")) ∨
        setting.stepNodes recipe step index number backend agent = .ok nodes := by
  unfold lowerStep at h
  obtain ⟨title, _, -, h⟩ := Work.of_exec_bind_ok h
  obtain ⟨found, _, -, h⟩ := Work.of_exec_bind_ok h
  cases found with
  | none =>
      cases h
      exact .inl ⟨_, rfl⟩
  | some agent =>
      obtain ⟨excluded, _, -, h⟩ := Work.of_exec_bind_ok h
      cases excluded with
      | some project =>
          cases h
          exact .inr ⟨agent, .inl ⟨_, rfl⟩⟩
      | none => exact .inr ⟨agent, .inr (Work.of_exec_attempt_ok h).1⟩

theorem runAll_stepNodes {index number : Nat} (hagent : agentOf step = some agent)
    (h : setting.stepNodes recipe step index number backend agent = .ok nodes) :
    runAll answers nodes =
      recipe.taken answers backend agentOf (setting.eventLine recipe backend agentOf) step index
        number := by
  obtain ⟨invocation, call, title, hinvocation, hcall, htitle, rfl⟩ := of_stepNodes_ok h
  have hresponse : setting.response recipe backend agentOf step index number = responseIn call := by
    simp only [response, hagent, hinvocation, Except.bind, hcall]
  have hparts : invocation.step = step ∧ invocation.continuation = goesOn recipe step index := by
    obtain ⟨task, _, hinvocation⟩ := Attempt.of_bind_ok hinvocation
    cases hinvocation
    exact ⟨rfl, rfl⟩
  have hclosing : runAll answers [.line "echo \"\"", .blank] = pass := by
    simp [statement, begins, responseHead, announcementHead]
  have hbody : runAll answers (setting.documentLoaders step ++ call ++
      backend.outputDocument invocation ++ guardNodes step) =
      recipe.performed answers backend (setting.eventLine recipe backend agentOf) step index
        number := by
    simp [Recipe.performed, runAll_documentLoaders, Backend.runAll_step hcall,
      Backend.runAll_outputDocument, runAll_guardNodes, hparts, eventLine, hresponse]
  rw [Recipe.taken, hagent, Option.isSome_some, if_pos rfl]
  simp only [runAll_append, runAll_confirmation, runAll_conditioned, hbody, hclosing]
  simp [← stepTitle_eq htitle, statement_announcement, eventLine]

theorem runAll_skipped (step : Step) (note message : String) :
    runAll answers (skipped step note message) = pass := by
  simp [skipped, statement, begins, responseHead, announcementHead]

/-! ## Around the steps -/

theorem runAll_commentOn {title : String} {id : Option Value}
    (h : commentOn title id = .ok nodes) : runAll answers nodes = pass := by
  cases id with
  | none => cases h; simp
  | some id =>
      obtain ⟨text, _, h⟩ := Attempt.of_bind_ok h
      cases h
      simp

theorem runAll_descriptionComment (h : descriptionComment recipe = .ok nodes) :
    runAll answers nodes = pass := by
  unfold descriptionComment at h
  split at h
  · obtain ⟨trimmed, _, h⟩ := Attempt.of_bind_ok h
    obtain ⟨text, _, h⟩ := Attempt.of_bind_ok h
    cases h
    simp
  · cases h
    simp

theorem runAll_header {time : String} (h : setting.header recipe backend time = .ok nodes) :
    runAll answers nodes = pass := by
  obtain ⟨feature, hfeature, h⟩ := Attempt.of_bind_ok h
  obtain ⟨name, hname, h⟩ := Attempt.of_bind_ok h
  obtain ⟨description, hdescription, h⟩ := Attempt.of_bind_ok h
  obtain ⟨project, hproject, h⟩ := Attempt.of_bind_ok h
  cases h
  simp [runAll_commentOn hfeature, runAll_commentOn hname, runAll_descriptionComment hdescription,
    runAll_commentOn hproject, statement, begins, responseHead, announcementHead]

/-- Setting up looks for the context of the project, and nothing else. -/
theorem runAll_setup (setting : Setting) (recipe : Recipe) (backend : Backend) :
    runAll answers (setting.setup recipe backend) = incidental 1 := by
  simp [setup, Backend.contextLoader, run, run_choice answers, isTest, repetitions?, loopHead,
    statement, begins, responseHead, announcementHead]

theorem runAll_declarations (setting : Setting) (recipe : Recipe) :
    runAll answers (setting.declarations recipe) = pass := by
  have hdeclared : ∀ entries : List (String × String),
      runAll answers (entries.map (declaration setting.context)) = pass := by
    intro entries
    induction entries with
    | nil => simp
    | cons entry entries ih =>
        simp [ih, declaration, statement, begins, responseHead, announcementHead]
  unfold declarations
  dsimp only
  split
  · simp
  · simp [hdeclared]

theorem runAll_loopExit (loop : Loop) :
    runAll answers (loopExit loop) = loop.stops answers := by
  unfold loopExit Loop.stops
  rcases loop.condition with _ | ⟨_ | _ | _, cmd, prompt⟩
  · simp
  · simp
  · by_cases hcmd : cmd.isEmpty
    · simp [hcmd]
    · simp [hcmd, run_when answers, isTest, statement, begins, responseHead, announcementHead]
  · simp [run_when answers, isTest, statement, begins, responseHead, announcementHead]

theorem runAll_loopNodes (loop : Loop) (steps : List Step) (body : List Node) :
    runAll answers (loopNodes loop steps body) =
      repeated ((runAll answers body).andThen (loop.stops answers)) loop.maxIterations.toNat := by
  have hbody : runAll answers ([.line "echo \"\"",
      .line ("echo \"▶️  Iteration $iteration/" ++ toString loop.maxIterations ++ "\"")] ++ body ++
        loopExit loop) = (runAll answers body).andThen (loop.stops answers) := by
    simp [runAll_loopExit, statement, begins, responseHead, announcementHead]
  have hloop := run_loop answers loop.maxIterations ([.line "echo \"\"",
    .line ("echo \"▶️  Iteration $iteration/" ++ toString loop.maxIterations ++ "\"")] ++ body ++
      loopExit loop) "done"
  rw [hbody] at hloop
  simp only [loopNodes, runAll_cons, runAll_nil, run_comment, run_blank, pass_andThen,
    andThen_pass]
  exact hloop

end Setting

end Playbook
