import Playbook.Manifest.Agent
import Playbook.Manifest.Recipe
import Playbook.Shell.Quote
import Playbook.Shell.Script
import Playbook.Shell.Variable

/-!
# Backends

A backend knows how one target tool is called: how an agent is addressed, how
a conversation goes on, which flags there are. Two tools are driven by a
command line; the others are editors, for which a script gives instructions
and waits.
-/

namespace Playbook

structure ManualTool where
  id : String
  label : String
  recipesDir : String
  contextFiles : List String
deriving DecidableEq, Repr, Inhabited

inductive Backend where
  | claudeCode
  | copilotCli
  | manual (tool : ManualTool)
deriving DecidableEq, Repr, Inhabited

structure Capabilities where
  id : String
  label : String
  programmatic : Bool
  supportsContinuation : Bool
  supportsModelFlag : Bool
deriving DecidableEq, Repr

/-- One step, ready to be written; `task` has its variables replaced and is not escaped. -/
structure Invocation where
  recipeId : Value
  step : Step
  stepNumber : Int
  agent : Agent
  task : String
  model : Option String
  continuation : Bool
  chainStart : Bool
  options : Entries
  documents : List String
  docsDir : String

namespace Backend

def id : Backend → String
  | .claudeCode => "claude-code"
  | .copilotCli => "copilot-cli"
  | .manual tool => tool.id

def label : Backend → String
  | .claudeCode => "Claude Code"
  | .copilotCli => "GitHub Copilot CLI"
  | .manual tool => tool.label

/-- Where generated scripts go, below the directory of the tool. -/
def recipesDir : Backend → String
  | .claudeCode => ".claude/.cs.recipes"
  | .copilotCli => ".cs.recipes"
  | .manual tool => tool.recipesDir

def contextFiles : Backend → List String
  | .claudeCode => [".claude/project-context.json", "CLAUDE.md"]
  | .copilotCli => [".github/copilot-instructions.md"]
  | .manual tool => tool.contextFiles

def isManual : Backend → Bool
  | .manual _ => true
  | _ => false

def capabilities (backend : Backend) : Capabilities :=
  { id := backend.id
    label := backend.label
    programmatic := !backend.isManual
    supportsContinuation := !backend.isManual
    supportsModelFlag := !backend.isManual }

/-- An option that may be a text with commas or a list of texts. -/
def optionList (option : Value) : Attempt (List String) :=
  match option with
  | .null | .bool false => .ok []
  | .text s => .ok (((Text.split ',' s).map Text.trim).filter fun part => !part.isEmpty)
  | v => do (← v.members).mapM Value.shown

def option (invocation : Invocation) (name : String) : Value :=
  (Entries.get? invocation.options name).getD .null

open Shell Shell.Node

def modelFlag (invocation : Invocation) : List String :=
  match invocation.model with
  | some model => if model.isEmpty then [] else ["--model \"" ++ escape model ++ "\""]
  | none => []

/-! ## Command line tools -/

def defaultPermissionMode : String := "acceptEdits"

def joinedFlag (flag : String) (values : List String) : List String :=
  if values.isEmpty then [] else [flag ++ " \"" ++ escape (Text.join "," values) ++ "\""]

def claudeFlags (invocation : Invocation) : Attempt (List String) := do
  let allowed ← optionList (option invocation "allowedTools")
  let disallowed ← optionList (option invocation "disallowedTools")
  let mode ← ((option invocation "permissionMode").orElse (.text defaultPermissionMode)).editable
  return (if invocation.continuation then ["\"$\x7bCONTINUE_ARGS[@]\x7d\""] else []) ++
    modelFlag invocation ++
    joinedFlag "--allowedTools" allowed ++
    joinedFlag "--disallowedTools" disallowed ++
    ["--permission-mode \"" ++ escape mode ++ "\"", "--append-system-prompt \"$SYSTEM_PROMPT\""]

def switches : List (String × String) :=
  [("allowAllTools", "--allow-all-tools"),
   ("allowAllPaths", "--allow-all-paths"),
   ("disallowTempDir", "--disallow-temp-dir")]

def repeatedFlags : List (String × String) :=
  [("addDirs", "--add-dir"), ("allowTools", "--allow-tool"), ("denyTools", "--deny-tool")]

def repeatedFlag (invocation : Invocation) (entry : String × String) : Attempt (List String) := do
  let values ← optionList (option invocation entry.1)
  return values.map fun v => entry.2 ++ " \"" ++ escape v ++ "\""

def copilotFlags (invocation : Invocation) : Attempt (List String) := do
  let lists ← repeatedFlags.mapM (repeatedFlag invocation)
  return (if invocation.continuation then ["--continue"] else []) ++
    modelFlag invocation ++
    (switches.filter fun entry => (option invocation entry.1).isGiven).map (·.2) ++
    lists.flatten

/-- The flags of an invocation; a manual tool takes none. -/
def flags (backend : Backend) (invocation : Invocation) : Attempt (List String) :=
  match backend with
  | .claudeCode => claudeFlags invocation
  | .copilotCli => copilotFlags invocation
  | .manual _ => .error .lacksOperation

/-- Sets the variable of the conversation from what the tool printed. -/
def captureConversation : List Node :=
  [.comment "Capture conversation id for the following steps",
   .line ("CONVERSATION_ID=$(echo \"$RESPONSE\" | " ++
     "grep -oE '(Conversation ID|session_id): [A-Za-z0-9-]+' | head -n 1 | " ++
     "sed -E 's/.*: //' || true)")]

def resumeConversation : List Node :=
  [.line "CONTINUE_ARGS=(--continue)",
   .when "if [ -n \"$CONVERSATION_ID\" ]; then"
     [.line "CONTINUE_ARGS=(--resume \"$CONVERSATION_ID\")"]]

def systemPromptLine (text : String) : Node :=
  .line ("SYSTEM_PROMPT=\"$\x7bSYSTEM_PROMPT\x7d" ++ text ++ "\"")

def systemPrompt (invocation : Invocation) : Attempt (List Node) := do
  let system := invocation.agent.prompt.system
  let own ← if system.isGiven then do
      let text ← (← system.trimmed).editable
      pure [systemPromptLine ("\\n\\n" ++ escape text)]
    else pure []
  return [.comment "Build system prompt with project context and recipe info",
    .line "SYSTEM_PROMPT=\"\"",
    .when "if [ -n \"$PROJECT_CONTEXT\" ]; then"
      [.line "SYSTEM_PROMPT=\"$PROJECT_CONTEXT\\n\\n---\\n\\n\""],
    systemPromptLine ("Recipe: " ++ invocation.recipeId.display ++ "\\nStep: " ++
      toString invocation.stepNumber ++ " (" ++ invocation.step.id.display ++ ")")] ++ own

def claudeStep (invocation : Invocation) : Attempt (List Node) := do
  let system ← systemPrompt invocation
  let flags ← claudeFlags invocation
  return system ++
    (if invocation.continuation then resumeConversation else []) ++
    [.line "echo \"⚡ Executing with claude-code...\"",
     .line ("RESPONSE=$(claude @" ++ invocation.agent.id.display ++ " " ++ Text.join " " flags ++
       " --print \"" ++ escape invocation.task ++ "\")"),
     .line "echo \"$RESPONSE\""] ++
    (if invocation.chainStart then captureConversation else [])

def copilotStep (invocation : Invocation) : Attempt (List Node) := do
  let flags ← copilotFlags invocation
  let tail := if flags.isEmpty then "" else " " ++ Text.join " " flags
  let prompt := escape ("@" ++ invocation.agent.id.display ++ " " ++ invocation.task)
  return [.line "echo \"⚡ Executing with copilot-cli...\"",
    .line ("RESPONSE=$(copilot -p \"" ++ prompt ++ "\"" ++ tail ++ ")"),
    .line "echo \"$RESPONSE\""]

/-! ## Manual tools -/

/-- Instructions, and a wait; the response stays empty. -/
def manualStep (tool : ManualTool) (invocation : Invocation) : List Node :=
  let agent := invocation.agent.id.display
  let model := match invocation.model with
    | some model => if model.isEmpty then [] else [Node.comment ("Model: " ++ model)]
    | none => []
  let documents :=
    if invocation.documents.isEmpty then []
    else Node.comment "Attach documents:" :: invocation.documents.map fun path =>
      Node.comment ("  - " ++ documentPath invocation.docsDir path)
  [.comment ("Manual: open " ++ tool.label ++ " and execute:"),
   .comment ("Agent: @" ++ agent)] ++ model ++ documents ++
  [.comment ("@" ++ agent ++ " " ++ invocation.task),
   .line ("echo \"⚠️  Please execute step " ++ toString invocation.stepNumber ++ " (" ++
     invocation.step.id.display ++ ") in " ++ escape tool.label ++ "\""),
   .line ("echo \"   Agent: @" ++ agent ++ "\""),
   .line "read -r -p \"Press Enter when done... \" _",
   .line "RESPONSE=\"\""]

/-- The statements that carry out a step and set `RESPONSE`. -/
def step (backend : Backend) (invocation : Invocation) : Attempt (List Node) :=
  match backend with
  | .claudeCode => claudeStep invocation
  | .copilotCli => copilotStep invocation
  | .manual tool => .ok (manualStep tool invocation)

/-! ## Documents and context -/

/-- The statements that keep the response of a step in its output document. -/
def outputDocument (backend : Backend) (invocation : Invocation) : List Node :=
  match invocation.step.outputDocument with
  | none => []
  | some path =>
      let target := documentPath invocation.docsDir path
      if backend.isManual then
        [.line ("echo \"📄 Save the response manually to: " ++ target ++ "\""),
         .when ("if [ ! -f \"" ++ target ++ "\" ]; then")
           [.line ("echo \"⚠️  Document not saved yet: " ++ target ++ "\"")]]
      else
        [.line ("echo \"$RESPONSE\" > \"" ++ target ++ "\""),
         .line ("echo \"✓ Document saved: " ++ escape path ++ "\"")]

/-- A function that takes the first context file that is there. -/
def contextLoader (backend : Backend) : List Node :=
  [.comment "Function to load project context",
   .block "load_project_context() \x7b"
     (.line "PROJECT_CONTEXT=\"\"" :: backend.contextFiles.map fun path =>
       .when ("if [ -z \"$PROJECT_CONTEXT\" ] && [ -f \"" ++ path ++ "\" ]; then")
         [.line ("PROJECT_CONTEXT=$(cat \"" ++ path ++ "\")")])
     none "\x7d"]

end Backend

end Playbook
