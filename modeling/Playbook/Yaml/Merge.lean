import Playbook.Yaml.Node

/-!
# Merging mappings

`NodeTable.flatten` puts the entries that a mapping merges in front of its
own. The table is changed: a mapping that was flattened once has no merge keys
any more, wherever else it is used. A mapping may merge itself, and then has
the entries that are left once more.
-/

namespace Playbook.Yaml

abbrev NodeEntries := List (Nat × Nat)

namespace NodeTable

def tag (nodes : NodeTable) (number : Nat) : String :=
  match nodes[number]? with
  | some (.scalar tag _) | some (.sequence tag _) | some (.mapping tag _) => tag
  | none => ""

def entries? (nodes : NodeTable) (number : Nat) : Option NodeEntries :=
  match nodes[number]? with
  | some (.mapping _ entries) => some entries
  | _ => none

def setEntries (nodes : NodeTable) (number : Nat) (entries : NodeEntries) : NodeTable :=
  nodes.setIfInBounds number (.mapping (nodes.tag number) entries)

def isMerge (nodes : NodeTable) (entry : Nat × Nat) : Bool :=
  nodes.tag entry.1 == standardTag "merge"

/-- What stands for an equals sign is text as a key. -/
def asKey (nodes : NodeTable) (number : Nat) : NodeTable :=
  if nodes.tag number != standardTag "value" then nodes
  else
    let text := standardTag "str"
    match nodes[number]? with
    | some (.scalar _ s) => nodes.setIfInBounds number (.scalar text s)
    | some (.sequence _ items) => nodes.setIfInBounds number (.sequence text items)
    | some (.mapping _ entries) => nodes.setIfInBounds number (.mapping text entries)
    | none => nodes

/-- How often something can be merged at most. -/
def mergeCount (nodes : NodeTable) : Nat :=
  nodes.foldl (fun count node =>
    match node with
    | .mapping _ entries => count + (entries.filter nodes.isMerge).length
    | _ => count) 0

end NodeTable

/-- Work on a table of nodes. -/
abbrev Editor := StateT NodeTable Result

namespace Editor

def entries (number : Nat) : Editor NodeEntries := do
  match (← get).entries? number with
  | some entries => return entries
  | none => throw .malformed

/-- The entries to be merged, given how a mapping is flattened; of several, the last come first. -/
def merged (flatten : Nat → Editor Unit) (number : Nat) : Editor NodeEntries := do
  let flattened := fun number => do
    let _ ← entries number
    flatten number
    entries number
  match (← get)[number]? with
  | some (.mapping ..) => flattened number
  | some (.sequence _ items) => return (← items.mapM flattened).reverse.flatten
  | _ => throw .malformed

/-- Each call takes a merge key away or finds none, which bounds the calls inside each other. -/
def flatten : Nat → Nat → Editor Unit
  | 0, _ => throw .malformed
  | calls + 1, number => do
      let nodes ← get
      let own ← entries number
      match own.find? nodes.isMerge with
      | none => set (own.foldl (fun nodes entry => nodes.asKey entry.1) nodes)
      | some entry =>
          let before := own.takeWhile fun e => !nodes.isMerge e
          let behind := (own.dropWhile fun e => !nodes.isMerge e).drop 1
          set (nodes.setEntries number (before ++ behind))
          let found ← merged (flatten calls) entry.2
          flatten calls number
          let rest ← entries number
          modify fun nodes => nodes.setEntries number (found ++ rest)

end Editor

/-- The table in which a mapping has the entries that it merges. -/
def NodeTable.flatten (nodes : NodeTable) (number : Nat) : Result NodeTable :=
  ((Editor.flatten (nodes.mergeCount + 1) number).run nodes).map (·.2)

end Playbook.Yaml
