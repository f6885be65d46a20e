import Playbook.Recipe.Lowering

/-!
# Recipes as scripts

A script has a header, a part that sets up directories, log and project
context, the variables of the recipe, and the steps: those before the loop,
the loop, and those behind it.
-/

namespace Playbook

namespace Setting

open Shell Shell.Node

/-- The model that the header names. -/
def modelHeader (setting : Setting) (recipe : Recipe) : String :=
  match ModelSources.choice? { feature := setting.feature, project := setting.project } with
  | some choice => choice.model ++ " (" ++ choice.layer.label ++ ")"
  | none => match recipe.model with
    | some model => model ++ " (recipe-level)"
    | none => "agent defaults"

def descriptionComment (recipe : Recipe) : Attempt (List Node) :=
  if recipe.description.isGiven then do
    let text ← recipe.description.trimmed
    return [.comment ("Description: " ++ (← text.shown))]
  else .ok []

def commentOn (title : String) (id : Option Value) : Attempt (List Node) :=
  match id with
  | none => .ok []
  | some id => do return [.comment (title ++ (← id.shown))]

def header (setting : Setting) (recipe : Recipe) (backend : Backend) (time : String) :
    Attempt (List Node) := do
  return [.line "#!/bin/bash", .blank] ++
    (← commentOn "Feature: " (setting.feature.map (·.id))) ++
    (← commentOn "Recipe: " (some recipe.id)) ++
    (← descriptionComment recipe) ++
    (← commentOn "Project: " (setting.project.map (·.id))) ++
    [.comment ("Tool: " ++ backend.id),
     .comment ("Model: " ++ setting.modelHeader recipe),
     .comment ("Generated: " ++ time),
     .blank,
     .line "set -e",
     .blank]

def logName (setting : Setting) (recipe : Recipe) : String :=
  match setting.feature with
  | some feature => "feature-" ++ feature.id.display
  | none => recipe.id.display

def setup (setting : Setting) (recipe : Recipe) (backend : Backend) : List Node :=
  [.comment "Setup directories",
   .line ("RECIPE_DOCS_DIR=\"" ++ setting.docsDir ++ "\""),
   .line ("RECIPE_LOGS_DIR=\"" ++ setting.logsDir ++ "\""),
   .line "mkdir -p \"$RECIPE_DOCS_DIR\" \"$RECIPE_LOGS_DIR\"",
   .blank,
   .comment "Setup logging",
   .line ("LOG_FILE=\"$RECIPE_LOGS_DIR/" ++ setting.logName recipe ++
     "-$(date +%Y%m%d-%H%M%S).log\""),
   .line "echo \"📝 Logging to: $LOG_FILE\"",
   .line "echo \"\"",
   .blank,
   .comment "Redirect all output to both console and log file",
   .line "exec > >(tee -a \"$LOG_FILE\") 2>&1",
   .blank] ++
  backend.contextLoader ++
  [.blank,
   .comment "Load project context for system prompts",
   .line "echo \"📋 Loading project context...\"",
   .line "load_project_context",
   .choice "if [ -n \"$PROJECT_CONTEXT\" ]; then"
    [.line "echo \"✓ Project context loaded\""]
    [.line "echo \"⚠️  No project context found\""],
   .line "echo \"\"",
   .blank]

def declaration (context : List (String × String)) (entry : String × String) : Node :=
  let note := if (context.lookup entry.1).isSome then "  # feature context" else ""
  .line (": $\x7b" ++ variableName entry.1 ++ ":=\"" ++ substituteAll (escape entry.2) ++
    "\"\x7d" ++ note)

def declarations (setting : Setting) (recipe : Recipe) : List Node :=
  let defaults := setting.variableDefaults recipe
  if defaults.isEmpty then []
  else [.comment "Variables (override via environment)"] ++
    defaults.map (declaration setting.context) ++ [.blank]

/-- The place of a step in its recipe; of steps with one id, the place of the last. -/
def stepNumber (recipe : Recipe) (step : Step) : Int :=
  match recipe.steps.zipIdx.reverse.find? fun entry => entry.1.id.same step.id with
  | some entry => (entry.2 : Int) + 1
  | none => 0

def lowerGroup (setting : Setting) (recipe : Recipe) (steps : List Step) (backend : Backend) :
    Work Run (List Node) := do
  let groups ← steps.zipIdx.mapM fun entry =>
    setting.lowerStep recipe entry.1 entry.2 (stepNumber recipe entry.1) backend
  return groups.flatten

/-- What ends the loop early. -/
def loopExit (loop : Loop) : List Node :=
  match loop.condition with
  | some ⟨.command, cmd, _⟩ =>
      if cmd.isEmpty then []
      else [.when ("if " ++ cmd ++ "; then")
        [.line "echo \"✓ Loop condition met, exiting loop.\"", .line "break"]]
  | some ⟨.userDecision, _, prompt⟩ =>
      [.when ("if [ \"$iteration\" -lt " ++ toString loop.maxIterations ++ " ]; then")
        [.line ("read -r -p \"" ++ escape (textOr prompt "Continue loop? (y/n) ") ++ "\" REPLY"),
         .when "if [[ ! \"$REPLY\" =~ ^[Yy]$ ]]; then"
          [.line "echo \"✓ Loop stopped by user.\"", .line "break"]]]
  | _ => []

def loopNodes (loop : Loop) (steps : List Step) (body : List Node) : List Node :=
  let limit := toString loop.maxIterations
  let names := Text.join " → " (steps.map (·.id.display))
  [.comment ("Loop: " ++ names ++ " (max " ++ limit ++ " iterations)"),
   .block ("for iteration in $(seq 1 " ++ limit ++ "); do")
    ([.line "echo \"\"", .line ("echo \"▶️  Iteration $iteration/" ++ limit ++ "\"")] ++ body ++
      loopExit loop)
    none "done",
   .blank]

def lowerLoop (setting : Setting) (recipe : Recipe) (steps : List Step) (backend : Backend) :
    Work Run (List Node) := do
  match recipe.loop with
  | none => return []
  | some loop =>
      if steps.isEmpty then return []
      let _ ← Work.attempt (Value.int loop.maxIterations).shown
      let body ← setting.lowerGroup recipe steps backend
      return loopNodes loop steps body

/-- The nodes of the script for a recipe. -/
def script (setting : Setting) (recipe : Recipe) (tool : Value) (time : String) :
    Work Run (List Node) := do
  if recipe.steps.isEmpty then
    throw (.uncompilable (← Work.attempt recipe.id.shown) "recipe has no steps")
  let backend ← Work.attempt (setting.registry.getNamed tool)
  let (partition, reports) ← Work.attempt (Partition.ofRecipe recipe)
  Work.tell reports
  if recipe.steps.any fun step => !step.id.canBeKey then throw .wrongType
  let header ← Work.attempt (setting.header recipe backend time)
  let before ← setting.lowerGroup recipe partition.preLoop backend
  let loop ← setting.lowerLoop recipe partition.loopBody backend
  let behind ← setting.lowerGroup recipe partition.postLoop backend
  let done := if setting.feature.isSome then "Feature" else "Recipe"
  return header ++ setting.setup recipe backend ++ setting.declarations recipe ++ before ++ loop ++
    behind ++ [.line ("echo \"✅ " ++ done ++ " completed!\"")]

/-- The text of the script for a recipe. -/
def compile (setting : Setting) (recipe : Recipe) (tool : Value) (time : String) :
    Work Run String := do
  let nodes ← setting.script recipe tool time
  Work.attempt (render nodes 0)

end Setting

end Playbook
