import Playbook.Value.Reading

/-!
# Prompts

A prompt is a template with declared variables. `sourcePath` is its place
below the prompts directory, with slashes and without an extension; a prompt
that was not read from a file has its id there.
-/

namespace Playbook

structure PromptVariable where
  name : Value
  required : Bool
  description : Value
  default : Option String
deriving Inhabited

structure Prompt where
  id : Value
  content : Value
  description : Value
  version : String
  model : Option String
  declared : List PromptVariable
  tags : List String
  sourcePath : Value
deriving Inhabited

namespace PromptVariable

def ofValue (v : Value) : Attempt PromptVariable := do
  let name ← v.required "name"
  let required ← v.fieldOr "required" (.bool false)
  let description ← v.field "description"
  let fallback ← (← v.field "default").optionalText
  return { name, required := required.isGiven, description := description.orElse (.text "")
           default := fallback }

end PromptVariable

namespace Prompt

def ofValue (v : Value) (sourcePath : String) : Attempt Prompt := do
  let listed := (← v.field "variables").orElse (.list [])
  let declared ← (← listed.members).mapM PromptVariable.ofValue
  let empty := Value.text ""
  let id ← v.required "id"
  let content ← v.field "content"
  let description ← v.field "description"
  let version ← (← v.fieldOr "version" empty).shown
  let model ← (← v.field "model").optionalText
  let tags ← (← v.field "tags").texts
  return {
    id, version, model, declared, tags
    content := content.orElse empty
    description := description.orElse empty
    sourcePath := if sourcePath.isEmpty then id else .text sourcePath }

end Prompt

end Playbook
