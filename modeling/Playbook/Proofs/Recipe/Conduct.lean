import Playbook.Proofs.Shell.Execution
import Playbook.Recipe.Compilation

/-!
# How a recipe is carried out

The meaning of a recipe without its script: which steps are announced and
invoked, in which order, given the agents of the steps and an answer for each
test. A course records its events in any form.
-/

namespace Playbook

open Shell

/-- `index` is the place of a step in its group, `number` its place in the recipe. -/
inductive Event where
  | announced (step : Step) (number : Nat)
  | invoked (step : Step) (index number : Nat)

/-- The tests of a tool before it invokes a step: its context and its conversation. -/
def Backend.testsBefore (backend : Backend) (continuation : Bool) : Nat :=
  match backend with
  | .claudeCode => if continuation then 2 else 1
  | _ => 0

/-- Where a response is saved by hand, a test looks for its file. -/
def Backend.testsBehind (backend : Backend) (step : Step) : Nat :=
  if backend.isManual && step.outputDocument.isSome then 1 else 0

namespace Step

open Course

variable (answers : Nat → Bool) (step : Step)

/-- The check behind a step; a failure ends the run. -/
def guarded : Course α :=
  match step.condition with
  | some ⟨.onSuccess, some _⟩ => ask answers finish pass
  | _ => pass

/-- A step does not run when its file is there, or when the user says no. -/
def conditioned (body : Course α) : Course α :=
  match step.condition with
  | some ⟨.fileExists, some _⟩ => ask answers pass body
  | some ⟨.userDecision, _⟩ => ask answers body pass
  | _ => body

/-- A user who does not go on ends the run. -/
def confirmed : Course α :=
  if step.waitForConfirmation then ask answers finish pass else pass

end Step

/-- What decides on stopping the loop behind an iteration. -/
def Loop.stops (answers : Nat → Bool) (loop : Loop) : Course α :=
  match loop.condition with
  | some ⟨.command, cmd, _⟩ => if cmd.isEmpty then .pass else .ask answers .leave .pass
  | some ⟨.userDecision, _, _⟩ =>
      -- The user is asked only where another iteration is to come.
      .ask answers (.ask answers .leave .pass) .pass
  | _ => .pass

namespace Recipe

/-! ## The parts of a recipe -/

variable (recipe : Recipe)

/-- The steps with their places, from one. -/
def numbered : List (Step × Nat) := recipe.steps.zipIdx 1

def loopNames : List String := (recipe.loop.map (·.steps)).getD []

/-- The steps that the loop names. -/
def looped : List (Step × Nat) :=
  recipe.numbered.filter fun entry => entry.1.id.isAmong recipe.loopNames

/-- The steps before all of the loop; every step if there is no loop. -/
def ahead : List (Step × Nat) :=
  recipe.numbered.filter fun entry => recipe.looped.all fun other => decide (entry.2 < other.2)

def behind : List (Step × Nat) :=
  if recipe.looped.isEmpty then []
  else
    recipe.numbered.filter fun entry => recipe.looped.all fun other => decide (other.2 < entry.2)

theorem mem_numbered_of_mem_behind {entry : Step × Nat} (h : entry ∈ recipe.behind) :
    entry ∈ recipe.numbered := by
  unfold behind at h
  split at h
  · cases h
  · exact List.mem_of_mem_filter h

/-! ## The course of a recipe -/

open Course

variable (answers : Nat → Bool) (backend : Backend) (agentOf : Step → Option Agent)
variable (record : Event → α)

def performed (step : Step) (index number : Nat) : Course α :=
  sequence [
    incidental step.includeDocuments.length,
    incidental (backend.testsBefore (Setting.goesOn recipe step index)),
    note (record (.invoked step index number)),
    incidental (backend.testsBehind step),
    step.guarded answers]

/-- A step without an agent that takes part is passed over. -/
def taken (step : Step) (index number : Nat) : Course α :=
  if (agentOf step).isSome then
    sequence [
      note (record (.announced step number)),
      step.conditioned answers (recipe.performed answers backend record step index number),
      step.confirmed answers]
  else pass

def group (steps : List (Step × Nat)) : Course α :=
  sequence (steps.zipIdx.map fun entry =>
    recipe.taken answers backend agentOf record entry.1.1 entry.2 entry.1.2)

def looping : Course α :=
  match recipe.loop with
  | none => pass
  | some loop =>
      if recipe.looped.isEmpty then pass
      else
        repeated ((recipe.group answers backend agentOf record recipe.looped).andThen
          (loop.stops answers)) loop.maxIterations.toNat

/-- The whole run; the first test looks for the context of the project. -/
def conduct : Course α :=
  sequence [
    incidental 1,
    recipe.group answers backend agentOf record recipe.ahead,
    recipe.looping answers backend agentOf record,
    recipe.group answers backend agentOf record recipe.behind]

/-! ## Independence of the form of the events -/

end Recipe

section

open Course

variable {f : α → β} {answers : Nat → Bool}

theorem Step.follows_guarded (step : Step) :
    Follows f (step.guarded answers) (step.guarded answers) := by
  unfold Step.guarded
  split
  · exact follows_finish.ask answers follows_pass
  · exact follows_pass

theorem Step.follows_confirmed (step : Step) :
    Follows f (step.confirmed answers) (step.confirmed answers) := by
  unfold Step.confirmed
  split
  · exact follows_finish.ask answers follows_pass
  · exact follows_pass

theorem Step.follows_conditioned (step : Step) {c : Course β} {d : Course α}
    (h : Follows f c d) :
    Follows f (step.conditioned answers c) (step.conditioned answers d) := by
  unfold Step.conditioned
  split
  · exact follows_pass.ask answers h
  · exact h.ask answers follows_pass
  · exact h

theorem Loop.follows_stops (loop : Loop) :
    Follows f (loop.stops answers) (loop.stops answers) := by
  unfold Loop.stops
  split
  · split
    · exact follows_pass
    · exact follows_leave.ask answers follows_pass
  · exact (follows_leave.ask answers follows_pass).ask answers follows_pass
  · exact follows_pass

end

namespace Recipe

open Course

variable {f : α → β} {answers : Nat → Bool} {backend : Backend} {agentOf : Step → Option Agent}
variable {record : Event → α}

theorem follows_performed (recipe : Recipe) (step : Step) (index number : Nat) :
    Follows f (recipe.performed answers backend (f ∘ record) step index number)
      (recipe.performed answers backend record step index number) :=
  (follows_incidental _).andThen <| (follows_incidental _).andThen <|
    (follows_note _).andThen <| (follows_incidental _).andThen <|
    step.follows_guarded.andThen follows_pass

theorem follows_taken (recipe : Recipe) (step : Step) (index number : Nat) :
    Follows f (recipe.taken answers backend agentOf (f ∘ record) step index number)
      (recipe.taken answers backend agentOf record step index number) := by
  unfold taken
  split
  · exact (follows_note _).andThen <|
      (step.follows_conditioned (recipe.follows_performed step index number)).andThen <|
      step.follows_confirmed.andThen follows_pass
  · exact follows_pass

theorem follows_group (recipe : Recipe) (steps : List (Step × Nat)) :
    Follows f (recipe.group answers backend agentOf (f ∘ record) steps)
      (recipe.group answers backend agentOf record steps) :=
  follows_sequence _ fun entry => recipe.follows_taken entry.1.1 entry.2 entry.1.2

theorem follows_looping (recipe : Recipe) :
    Follows f (recipe.looping answers backend agentOf (f ∘ record))
      (recipe.looping answers backend agentOf record) := by
  unfold looping
  split
  · exact follows_pass
  · split
    · exact follows_pass
    · exact ((recipe.follows_group _).andThen (Loop.follows_stops _)).repeated _

/-- A course that records events in another form goes the same way. -/
theorem follows_conduct (recipe : Recipe) :
    Follows f (recipe.conduct answers backend agentOf (f ∘ record))
      (recipe.conduct answers backend agentOf record) :=
  (follows_incidental 1).andThen <| (recipe.follows_group _).andThen <|
    recipe.follows_looping.andThen <| (recipe.follows_group _).andThen follows_pass

end Recipe

end Playbook
