import Playbook.Value.Reading

/-!
# Features

A feature is a unit of work of a project. It may be bound to a recipe, with
values for the recipe's variables and tools of its own.
-/

namespace Playbook

structure RecipeBinding where
  id : Value
  context : List (String × String)
  tools : List String
deriving Inhabited

structure Feature where
  id : Value
  name : Value
  version : String
  description : Value
  model : Option String
  recipe : Option RecipeBinding
deriving Inhabited

namespace RecipeBinding

/-- There is no binding without the id of a recipe. -/
def ofValue? (v : Value) : Attempt (Option RecipeBinding) := do
  if !v.isGiven then return none
  let id ← v.field "id"
  if !id.isGiven then return none
  let context ← (← v.field "context").textPairs
  let tools ← (← v.field "tools").texts
  return some { id, context, tools }

end RecipeBinding

namespace Feature

def ofValue (v : Value) : Attempt Feature := do
  let recipe ← RecipeBinding.ofValue? (← v.field "recipe")
  let empty := Value.text ""
  let id ← v.required "id"
  let name ← v.field "name"
  let version ← (← v.fieldOr "version" empty).shown
  let description ← v.field "description"
  let model ← (← v.field "model").optionalText
  return {
    id, version, model, recipe
    name := name.orElse empty
    description := description.orElse empty }

end Feature

end Playbook
