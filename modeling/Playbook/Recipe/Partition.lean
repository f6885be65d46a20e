import Playbook.Log
import Playbook.Manifest.Recipe

/-!
# Steps around the loop

The steps of a recipe fall into those before the loop, its body, and those
behind it. The loop reaches from the first to the last step that it names;
steps in between that it does not name belong to no group.
-/

namespace Playbook

structure Partition where
  preLoop : List Step
  loopBody : List Step
  postLoop : List Step
deriving Inhabited

namespace Partition

def hasLoop (partition : Partition) : Bool := !partition.loopBody.isEmpty

/-- The position of the last step with an id. -/
def lastIndex? (steps : List Step) (id : String) : Option Nat :=
  (steps.zipIdx.reverse.find? fun entry => entry.1.id.isAmong [id]).map (·.2)

def indices (steps : List Step) (names : List String) : List Nat :=
  names.filterMap (lastIndex? steps)

def unknownWarning (recipe : Value) (name : String) : LogEntry :=
  warn ("Recipe " ++ recipe.display ++ ": loop references unknown step '" ++ name ++ "'")

def gapWarning (recipe : Value) (step : Step) : LogEntry :=
  warn ("Recipe " ++ recipe.display ++ ": step '" ++ step.id.display ++
    "' lies inside the loop range but is not listed in loop.steps; it is not emitted")

def first (positions : List Nat) : Nat := positions.foldl min (positions.headD 0)

def last (positions : List Nat) : Nat := positions.foldl max 0

/-- The steps from the first to the last position, with their positions. -/
def range (steps : List Step) (positions : List Nat) : List (Step × Nat) :=
  (steps.zipIdx.take (last positions + 1)).drop (first positions)

def ofPositions (steps : List Step) (positions : List Nat) : Partition :=
  { preLoop := steps.take (first positions)
    loopBody := ((range steps positions).filter fun entry => positions.contains entry.2).map (·.1)
    postLoop := steps.drop (last positions + 1) }

def whole (steps : List Step) : Partition := ⟨steps, [], []⟩

/-- What stands in the way of a partition: an id that cannot be a key. -/
def ofRecipe (recipe : Recipe) : Attempt (Partition × Log) :=
  match recipe.loop with
  | none => .ok (whole recipe.steps, [])
  | some loop =>
      if loop.steps.isEmpty then .ok (whole recipe.steps, [])
      else if recipe.steps.any fun step => !step.id.canBeKey then .error .wrongType
      else
        let unknown := loop.steps.filter fun name => (lastIndex? recipe.steps name).isNone
        let positions := indices recipe.steps loop.steps
        let reports := unknown.map (unknownWarning recipe.id)
        if positions.isEmpty then .ok (whole recipe.steps, reports)
        else
          let gaps := (range recipe.steps positions).filter fun entry =>
            !positions.contains entry.2
          .ok (ofPositions recipe.steps positions,
            reports ++ gaps.map fun entry => gapWarning recipe.id entry.1)

end Partition

end Playbook
