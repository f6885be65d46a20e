import Playbook.Value.Reading

/-!
# Recipes

A recipe is a list of steps, each of them a task for an agent, with an
optional loop around some of the steps and options for each target tool.
-/

namespace Playbook

/-- One of some named choices; `kind` names them in the fault. -/
def choose (kind : String) (choices : List (String × α)) (v : Value) : Attempt α :=
  let chosen := match v with
    | .text s => choices.lookup s
    | _ => none
  match chosen with
  | some choice => .ok choice
  | none => .error (if v.isShowable then .notAChoice v kind else .tooManyDigits none)

/-- How the steps of a recipe share a conversation. -/
inductive Conversation where
  | separate
  | continued
deriving DecidableEq, Repr, Inhabited

namespace Conversation

def name : Conversation → String
  | .separate => "separate"
  | .continued => "continue"

def ofValue (v : Value) : Attempt Conversation :=
  choose "ConversationStrategy" ([.separate, .continued].map fun c => (c.name, c)) v

end Conversation

/-- When the condition of a step is looked at. -/
inductive Occasion where
  | always
  | onSuccess
  | onFailure
  | userDecision
  | fileExists
deriving DecidableEq, Repr, Inhabited

namespace Occasion

def name : Occasion → String
  | .always => "always"
  | .onSuccess => "on-success"
  | .onFailure => "on-failure"
  | .userDecision => "user-decision"
  | .fileExists => "file_exists"

def ofValue (v : Value) : Attempt Occasion :=
  choose "ConditionType"
    ([.always, .onSuccess, .onFailure, .userDecision, .fileExists].map fun c => (c.name, c)) v

end Occasion

/-- What a condition looks at in the response to a step. -/
inductive Inspection where
  | contains
  | regex
  | command
  | userApproval
deriving DecidableEq, Repr, Inhabited

namespace Inspection

def name : Inspection → String
  | .contains => "contains"
  | .regex => "regex"
  | .command => "command"
  | .userApproval => "user-approval"

def ofValue (v : Value) : Attempt Inspection :=
  choose "CheckType"
    ([.contains, .regex, .command, .userApproval].map fun c => (c.name, c)) v

end Inspection

/-- What ends a loop before its last iteration. -/
inductive LoopExit where
  | maxIterations
  | command
  | userDecision
deriving DecidableEq, Repr, Inhabited

namespace LoopExit

def name : LoopExit → String
  | .maxIterations => "max-iterations"
  | .command => "command"
  | .userDecision => "user-decision"

def ofValue (v : Value) : Attempt LoopExit :=
  choose "LoopConditionType"
    ([.maxIterations, .command, .userDecision].map fun c => (c.name, c)) v

end LoopExit

structure Check where
  inspection : Inspection
  value : String
  pattern : String
  cmd : String
  prompt : String
deriving DecidableEq, Repr, Inhabited

structure Condition where
  occasion : Occasion
  check : Option Check
deriving DecidableEq, Repr, Inhabited

structure Step where
  id : Value
  agent : Value
  task : Value
  model : Option String
  outputDocument : Option String
  includeDocuments : List String
  continueConversation : Value
  waitForConfirmation : Bool
  condition : Option Condition
deriving Inhabited

structure LoopCondition where
  exit : LoopExit
  cmd : String
  prompt : String
deriving DecidableEq, Repr, Inhabited

structure Loop where
  steps : List String
  maxIterations : Int
  condition : Option LoopCondition
deriving DecidableEq, Repr, Inhabited

structure Recipe where
  id : Value
  steps : List Step
  description : Value
  version : String
  tags : List String
  tools : List String
  defaults : List (String × String)
  model : Option String
  loop : Option Loop
  conversation : Conversation
  toolOptions : List (String × Entries)
deriving Inhabited

namespace Check

def ofValue? (v : Value) : Attempt (Option Check) := do
  if !v.isGiven then return none
  let inspection ← Inspection.ofValue (← v.fieldOr "type" (.text Inspection.contains.name))
  let value ← (← v.field "value").textOrEmpty
  let pattern ← (← v.field "pattern").textOrEmpty
  let cmd ← (← v.field "cmd").textOrEmpty
  let prompt ← (← v.field "prompt").textOrEmpty
  return some { inspection, value, pattern, cmd, prompt }

end Check

namespace Condition

def ofValue? (v : Value) : Attempt (Option Condition) := do
  if !v.isGiven then return none
  let check ← Check.ofValue? (← v.field "check")
  let occasion ← Occasion.ofValue (← v.fieldOr "type" (.text Occasion.always.name))
  return some { occasion, check }

end Condition

namespace Step

def ofValue (v : Value) : Attempt Step := do
  let id ← v.required "id"
  let agent ← v.required "agent"
  let task ← v.field "task"
  let model ← (← v.field "model").optionalText
  let outputDocument ← (← v.field "outputDocument").optionalText
  let includeDocuments ← (← v.field "includeDocuments").texts
  let continueConversation ← v.field "continueConversation"
  let waitForConfirmation ← v.field "waitForConfirmation"
  let condition ← Condition.ofValue? (← v.field "condition")
  return {
    id, agent, model, outputDocument, includeDocuments, continueConversation, condition
    task := task.orElse (.text "")
    waitForConfirmation := waitForConfirmation.isGiven }

end Step

namespace LoopCondition

def ofValue? (v : Value) : Attempt (Option LoopCondition) := do
  if !v.isGiven then return none
  let exit ← LoopExit.ofValue (← v.fieldOr "type" (.text LoopExit.maxIterations.name))
  let cmd ← (← v.field "cmd").textOrEmpty
  let prompt ← (← v.field "prompt").textOrEmpty
  return some { exit, cmd, prompt }

end LoopCondition

namespace Loop

def defaultIterations : Int := 3

def ofValue? (v : Value) : Attempt (Option Loop) := do
  if !v.isGiven then return none
  let condition ← LoopCondition.ofValue? (← v.field "condition")
  let steps ← (← v.field "steps").texts
  let limit := (← v.field "maxIterations").orElse (.int defaultIterations)
  let maxIterations ← limit.whole
  return some { steps, maxIterations, condition }

end Loop

namespace Value

mutual

/-- A tuple as a list, and so the tuples that are its items. -/
def loosened : Value → Value
  | .tuple items => .list (loosenedItems items)
  | v => v

def loosenedItems : List Value → List Value
  | [] => []
  | x :: xs => loosened x :: loosenedItems xs

end

mutual

/-- A value in which every mapping has become the list of its pairs, except inside of tuples. -/
def unrolled : Value → Value
  | .list items => .list (unrolledItems items)
  | .mapping entries => .list (unrolledEntries entries)
  | .cycle name content => .cycle name (unrolled content)
  | v => loosened v

def unrolledItems : List Value → List Value
  | [] => []
  | x :: xs => unrolled x :: unrolledItems xs

def unrolledEntries : List (Value × Value) → List Value
  | [] => []
  | (k, v) :: es => .list [loosened k, unrolled v] :: unrolledEntries es

end

end Value

namespace Recipe

def toolEntry (entry : Value × Value) : Attempt (String × Entries) := do
  let name ← entry.1.shown
  let options ← (entry.2.orElse (.mapping [])).asMapping
  return (name, options.map fun (k, x) => (k, x.unrolled))

def ofValue (v : Value) : Attempt Recipe := do
  let options := (← v.field "toolOptions").orElse (.mapping [])
  let toolOptions ← (← options.entries).mapM toolEntry
  let empty := Value.text ""
  let id ← v.required "id"
  let stepData := (← v.field "steps").orElse (.list [])
  let steps ← (← stepData.members).mapM Step.ofValue
  let description ← v.field "description"
  let version ← (← v.fieldOr "version" empty).shown
  let tags ← (← v.field "tags").texts
  let tools ← (← v.field "tools").texts
  let defaults ← (← v.field "variables").textPairs
  let model ← (← v.field "model").optionalText
  let loop ← Loop.ofValue? (← v.field "loop")
  let conversation ← Conversation.ofValue
    (← v.fieldOr "conversationStrategy" (.text Conversation.separate.name))
  return {
    id, steps, version, tags, tools, defaults, model, loop, conversation, toolOptions
    description := description.orElse empty }

/-- The options for a tool, none where the recipe gives none. -/
def optionsFor (recipe : Recipe) (tool : String) : Entries :=
  (recipe.toolOptions.lookup tool).getD []

def stepIds (recipe : Recipe) : List Value := recipe.steps.map (·.id)

/-- A recipe without a list of tools is for every tool. -/
def isFor (recipe : Recipe) (tool : String) : Bool :=
  recipe.tools.isEmpty || recipe.tools.contains tool

end Recipe

end Playbook
