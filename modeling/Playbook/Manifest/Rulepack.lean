import Playbook.Value.Reading

/-!
# Rulepacks

A rulepack is a named bundle of rules that may extend other rulepacks.
-/

namespace Playbook

structure Rulepack where
  id : Value
  rules : List String
  «extends» : List String
  version : String
  description : Value
  tags : List String
deriving Inhabited

namespace Rulepack

def ofValue (v : Value) : Attempt Rulepack := do
  let id ← v.required "id"
  let rules ← (← v.field "rules").texts
  let parents ← (← v.field "extends").texts
  let version ← (← v.fieldOr "version" (.text "")).shown
  let description ← v.field "description"
  let tags ← (← v.field "tags").texts
  return { id, rules, «extends» := parents, version, tags
           description := description.orElse (.text "") }

end Rulepack

end Playbook
