import Playbook.Value.Reading

/-!
# Agents

An agent is a persona that steps address, with its prompt and its default
model.
-/

namespace Playbook

structure AgentPrompt where
  system : Value
  userTemplate : Value
deriving Inhabited

structure AgentDefaults where
  model : Option String
  temperature : Value
  maxTokens : Value
deriving Inhabited

structure Agent where
  id : Value
  purpose : Value
  version : String
  description : Value
  rulepacks : List String
  prompt : AgentPrompt
  constraints : List String
  defaults : AgentDefaults
  capabilities : List String
  tools : List String
deriving Inhabited

namespace Agent

def ofValue (v : Value) : Attempt Agent := do
  let promptData := (← v.field "prompt").orElse (.mapping [])
  let defaultsData := (← v.field "defaults").orElse (.mapping [])
  let empty := Value.text ""
  let id ← v.required "id"
  let purpose ← v.field "purpose"
  let version ← (← v.fieldOr "version" empty).shown
  let description ← v.field "description"
  let rulepacks ← (← v.field "rulepacks").texts
  let system ← promptData.field "system"
  let userTemplate ← promptData.field "user_template"
  let constraints ← (← v.field "constraints").texts
  let model ← (← defaultsData.field "model").optionalText
  let temperature ← defaultsData.field "temperature"
  let maxTokens ← defaultsData.field "max_tokens"
  let capabilities ← (← v.field "capabilities").texts
  let tools ← (← v.field "tools").texts
  return {
    id, version, rulepacks, constraints, capabilities, tools
    purpose := purpose.orElse empty
    description := description.orElse empty
    prompt := { system := system.orElse empty, userTemplate := userTemplate.orElse empty }
    defaults := { model, temperature, maxTokens } }

end Agent

end Playbook
