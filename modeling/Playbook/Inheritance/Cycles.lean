/-!
# Cycles of inheritance

A graph lists for each id the ids that it extends. `Graph.cycles` looks for
closed paths depth first from each id in order. A cycle is listed once, from
its least id on, with that id again at its end.
-/

namespace Playbook

abbrev Graph := List (String × List String)

namespace Graph

def parents (graph : Graph) (id : String) : List String := (graph.lookup id).getD []

def knows (graph : Graph) (id : String) : Bool := (graph.lookup id).isSome

/-- `found` holds cycles from their least id on, without that id at the end. -/
structure Search where
  found : List (List String)
  done : List String
deriving DecidableEq, Repr

def least : List String → Option String
  | [] => none
  | id :: rest =>
      match least rest with
      | none => some id
      | some other => if other < id then some other else some id

/-- The same circle, from its least id on. -/
def rotate (circle : List String) : List String :=
  match least circle with
  | none => circle
  | some start => circle.dropWhile (· != start) ++ circle.takeWhile (· != start)

def Search.add (search : Search) (circle : List String) : Search :=
  if search.found.contains circle then search
  else { search with found := search.found ++ [circle] }

/--
Visits an id below the ids of `path`, which is the way to it. The ids of a
path are different and known, so that the number of known ids bounds its
length and `fuel` is not used up.
-/
def visit (graph : Graph) : Nat → List String → Search → String → Search
  | 0, _, search, _ => search
  | fuel + 1, path, search, id =>
      if path.contains id then search.add (rotate (path.dropWhile (· != id)))
      else if search.done.contains id || !graph.knows id then search
      else
        let below := (graph.parents id).foldl (visit graph fuel (path ++ [id])) search
        { below with done := id :: below.done }

def close (circle : List String) : List String := circle ++ circle.head?.toList

def search (graph : Graph) : Search :=
  let ids := (graph.map (·.1)).mergeSort fun a b => !decide (b < a)
  ids.foldl (visit graph (graph.length + 1) []) ⟨[], []⟩

def cycles (graph : Graph) : List (List String) := graph.search.found.map close

end Graph

end Playbook
