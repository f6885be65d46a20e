import Playbook.Log
import Playbook.Manifest.Agent

/-!
# Agents of a run

A run looks an agent up once and keeps what it found, also when it found
nothing. The ids that were looked up stand in their order of first use.
-/

namespace Playbook

abbrev AgentCache := List (Value × Option Agent)

namespace AgentCache

def find? (cache : AgentCache) (id : Value) : Option (Option Agent) :=
  (List.find? (fun entry => entry.1.same id) cache).map (·.2)

def holds (cache : AgentCache) (id : Value) : Bool := (find? cache id).isSome

def ids (cache : AgentCache) : List Value := cache.map (·.1)

end AgentCache

structure AgentDesk where
  shelf : Shelf Agent
  cache : AgentCache

namespace AgentDesk

def get? (id : Value) : Work AgentDesk (Option Agent) := do
  if !id.canBeKey then throw .wrongType
  let desk ← Work.state
  match AgentCache.find? desk.cache id with
  | some agent => return agent
  | none =>
      let agent ← Work.within (·.shelf) (fun shelf desk => { desk with shelf }) (Shelf.get? id)
      Work.change fun desk => { desk with cache := desk.cache ++ [(id, agent)] }
      return agent

end AgentDesk

end Playbook
