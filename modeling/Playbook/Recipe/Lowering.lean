import Playbook.Backend.Registry
import Playbook.Recipe.AgentCache
import Playbook.Recipe.Partition
import Playbook.Resolution.Admission
import Playbook.Resolution.Model

/-!
# Steps as script nodes

A step becomes the nodes that load its documents, carry it out, keep its
output and test its condition. A step whose agent is unknown or kept out by
the project is skipped with a message.
-/

namespace Playbook

/-- What a compilation is for. -/
structure Setting where
  project : Option Project
  feature : Option Feature
  docsDir : String
  logsDir : String
  registry : Registry

def defaultDocsDir : String := ".recipe-docs"

def defaultLogsDir : String := ".recipe-logs"

/-- What a run of compilations remembers. -/
structure Run where
  agents : AgentDesk
  admissions : Admissions

namespace Setting

def context (setting : Setting) : List (String × String) :=
  ((setting.feature.bind (·.recipe)).map (·.context)).getD []

def put (table : List (String × String)) (key value : String) : List (String × String) :=
  match table with
  | [] => [(key, value)]
  | entry :: rest =>
      if entry.1 = key then (key, value) :: rest else entry :: put rest key value

/-- The default of each variable; the context of the feature goes over the recipe. -/
def variableDefaults (setting : Setting) (recipe : Recipe) : List (String × String) :=
  (recipe.defaults ++ setting.context).foldl (fun table entry => put table entry.1 entry.2) []

def stepModel (setting : Setting) (recipe : Recipe) (step : Step) (agent : Option Agent) :
    Option String :=
  step.model <|> recipe.model <|>
    ModelSources.model? { feature := setting.feature, project := setting.project, agent := agent }

open Shell Shell.Node

/-- A section of a task that shows its documents by their variables. -/
def documentSection (paths : List String) : List String :=
  ["", "## Reference Documents (Context)", ""] ++
    (paths.zip (documentVariables paths)).flatMap (fun (path, name) =>
      ["### Document: \x60" ++ path ++ "\x60", "", "$\x7b" ++ name ++ "\x7d", ""]) ++
    ["**Please use the documents above as context for your work.**"]

def saveInstruction (path : String) : String :=
  "\n\n**IMPORTANT**: Save your complete response to the file: \x60" ++ path ++ "\x60"

/-- The task of a step with references for variables, documents and the output document. -/
def taskText (setting : Setting) (recipe : Recipe) (step : Step) : Attempt String :=
  match step.task with
  | .text task =>
      let task := substitute task ((setting.variableDefaults recipe).map (·.1))
      let task :=
        if step.includeDocuments.isEmpty then task
        else Text.join "\n" (task :: documentSection step.includeDocuments)
      .ok (match step.outputDocument with
        | none => task
        | some path => task ++ saveInstruction path)
  | _ => .error .wrongType

def documentLoaders (setting : Setting) (step : Step) : List Node :=
  if step.includeDocuments.isEmpty then []
  else
    .comment "Load documents for this step" ::
      (step.includeDocuments.zip (documentVariables step.includeDocuments)).map
        fun (path, name) =>
          let place := documentPath setting.docsDir path
          .choice ("if [ -f \"" ++ place ++ "\" ]; then")
            [.line (name ++ "=$(cat \"" ++ place ++ "\")")]
            [.line (name ++ "=\"[Document not found: " ++ escape path ++ "]\"")]

def refusal (reason : String) : List Node :=
  [.line ("echo \"⚠️  Condition not met (" ++ reason ++ ")\""), .line "exit 1"]

def textOr (text fallback : String) : String := if text.isEmpty then fallback else text

/-- Ends the script if the response does not pass the check of its step. -/
def checkNodes (check : Check) : List Node :=
  match check.inspection with
  | .contains =>
      let expected := escape check.value
      [.when ("if [[ \"$RESPONSE\" != *\"" ++ expected ++ "\"* ]]; then")
        (refusal ("expected: " ++ expected))]
  | .regex =>
      [.line ("STEP_PATTERN=" ++ single check.pattern),
       .when "if [[ ! \"$RESPONSE\" =~ $STEP_PATTERN ]]; then"
        (refusal ("pattern: " ++ escape check.pattern))]
  | .command =>
      [.when ("if ! " ++ check.cmd ++ "; then")
        (refusal ("command failed: " ++ escape check.cmd))]
  | .userApproval =>
      [.line ("read -r -p \"" ++
        escape (textOr check.prompt "Approve this step's result? (y/n) ") ++ "\" REPLY"),
       .when "if [[ ! \"$REPLY\" =~ ^[Yy]$ ]]; then" (refusal "not approved")]

def guardNodes (step : Step) : List Node :=
  match step.condition with
  | some ⟨.onSuccess, none⟩ => [.comment "Condition: on-success (no check configured)"]
  | some ⟨.onSuccess, some check⟩ => checkNodes check
  | _ => []

def confirmation : List Node :=
  [.line "read -r -p \"Continue to next step? (y/n) \" REPLY",
   .when "if [[ ! \"$REPLY\" =~ ^[Yy]$ ]]; then"
    [.line "echo \"⏸️  Recipe execution paused by user.\"", .line "exit 0"]]

/-- What a condition puts around the nodes of its step. -/
def conditioned (step : Step) (body : List Node) : List Node :=
  match step.condition with
  | some ⟨.fileExists, some check⟩ =>
      let path := escape check.value
      [.choice ("if [ -f \"" ++ path ++ "\" ]; then")
        [.line ("echo \"  (Skipping: file " ++ path ++ " exists)\"")] body]
  | some ⟨.userDecision, check⟩ =>
      let prompt := escape (textOr ((check.map (·.prompt)).getD "")
        ("Execute step " ++ step.id.display ++ "? (y/n) "))
      [.line ("read -r -p \"" ++ prompt ++ "\" REPLY"),
       .choice "if [[ \"$REPLY\" =~ ^[Yy]$ ]]; then" body
        [.line ("echo \"  (Skipping step " ++ step.id.display ++ ")\"")]]
  | some ⟨.onFailure, _⟩ =>
      .comment "Condition: on-failure is evaluated by the caller" :: body
  | _ => body

def stepTitle (step : Step) (number : Int) : Attempt String := do
  return "Step " ++ toString number ++ ": " ++ (← step.id.shown) ++ " (" ++ (← step.agent.shown) ++ ")"

def skipped (step : Step) (note message : String) : List Node :=
  [.comment note,
   .line ("echo \"⚠️  Skipping step " ++ step.id.display ++ ": " ++ message ++ "\""),
   .blank]

/-- A step goes on with the conversation unless it is the first of its group or says no. -/
def goesOn (recipe : Recipe) (step : Step) (index : Int) : Bool :=
  let refuses := match step.continueConversation with
    | .bool false => true
    | _ => false
  recipe.conversation == .continued && !refuses && decide (0 < index)

def invocation (setting : Setting) (recipe : Recipe) (step : Step) (index number : Int)
    (backend : Backend) (agent : Agent) : Attempt Invocation := do
  let task ← setting.taskText recipe step
  let continuation := goesOn recipe step index
  return {
    recipeId := recipe.id
    step := step
    stepNumber := number
    agent := agent
    task := task
    model := setting.stepModel recipe step (some agent)
    continuation := continuation
    chainStart := recipe.conversation == .continued && !continuation
    options := recipe.optionsFor backend.id
    documents := step.includeDocuments
    docsDir := setting.docsDir }

/-- The nodes of a step whose agent takes part. -/
def stepNodes (setting : Setting) (recipe : Recipe) (step : Step) (index number : Int)
    (backend : Backend) (agent : Agent) : Attempt (List Node) := do
  let invocation ← setting.invocation recipe step index number backend agent
  let call ← backend.step invocation
  let body := setting.documentLoaders step ++ call ++ backend.outputDocument invocation ++
    guardNodes step
  let title ← stepTitle step number
  return [.comment title, .line ("echo \"▶️  " ++ title ++ "\"")] ++ conditioned step body ++
    (if step.waitForConfirmation then confirmation else []) ++
    [.line "echo \"\"", .blank]

def inAgents (work : Work AgentDesk α) : Work Run α :=
  Work.within (·.agents) (fun agents run => { run with agents }) work

def inAdmissions (work : Work Admissions α) : Work Run α :=
  Work.within (·.admissions) (fun admissions run => { run with admissions }) work

def unknownAgent (recipe : Recipe) (step : Step) : LogEntry :=
  warn ("Recipe " ++ recipe.id.display ++ ": agent '" ++ step.agent.display ++
    "' not found for step '" ++ step.id.display ++ "'; skipping step")

def excludedAgent (recipe : Recipe) (step : Step) (agent : Agent) (project : Project) :
    LogEntry :=
  warn ("Recipe " ++ recipe.id.display ++ ": agent '" ++ agent.id.display ++
    "' is excluded by project '" ++ project.id.display ++ "'; skipping step '" ++
    step.id.display ++ "'")

/-- The project that keeps an agent out, if there is one. -/
def excludedBy? (setting : Setting) (agent : Agent) : Work Run (Option Project) := do
  match setting.project with
  | none => return none
  | some project =>
      let admitted ← inAdmissions (Admissions.admits .agents agent.id (some project))
      return if admitted then none else some project

/-- `index` is the place of the step in its group, `number` its place in the recipe. -/
def lowerStep (setting : Setting) (recipe : Recipe) (step : Step) (index number : Int)
    (backend : Backend) : Work Run (List Node) := do
  let title ← Work.attempt (stepTitle step number)
  match ← inAgents (AgentDesk.get? step.agent) with
  | none =>
      Work.tell [unknownAgent recipe step]
      let name := step.agent.display
      return skipped step (title ++ " skipped: agent '" ++ name ++ "' not found")
        ("agent " ++ name ++ " not found")
  | some agent =>
      match ← setting.excludedBy? agent with
      | some project =>
          Work.tell [excludedAgent recipe step agent project]
          let name := agent.id.display
          return skipped step
            (title ++ " skipped: agent '" ++ name ++ "' excluded by project " ++
              project.id.display)
            ("agent " ++ name ++ " excluded")
      | none => Work.attempt (setting.stepNodes recipe step index number backend agent)

end Setting

end Playbook
