import Playbook.Log
import Playbook.Manifest.Project

/-!
# Admission by lists

Whether a project lets a manifest in: a whitelist with members decides, else
a blacklist with members, else everything is let in. A project that fills
both lists of a category is reported once by each `Admissions`.
-/

namespace Playbook

namespace Admission

def inConflict (lists : Admission) : Bool := !lists.whitelist.isEmpty && !lists.blacklist.isEmpty

/-- The decision for an id, given how an entry is compared with it. -/
def lets (lists : Admission) (matched : String → Bool) : Bool :=
  if !lists.whitelist.isEmpty then lists.whitelist.any matched
  else if !lists.blacklist.isEmpty then !lists.blacklist.any matched
  else true

end Admission

/-- An entry names a prompt by its path, by its id, or by the last name of its path. -/
def promptMatches (id path entry : String) : Bool :=
  let place := if path.isEmpty then id else path
  entry == place || entry == id || Text.afterLast '/' place == entry

structure Admissions where
  promptPaths : List (String × String)
  reported : List (Value × Category)

namespace Admissions

def conflictMessage (project : Value) (category : Category) : String :=
  "Project '" ++ project.display ++ "' sets both " ++ AiTools.whitelistField category ++ " and " ++
    AiTools.blacklistField category ++
    "; these are mutually exclusive. Applying the whitelist."

def isReported (reported : List (Value × Category)) (project : Value) (category : Category) :
    Bool :=
  reported.any fun entry => entry.1.same project && entry.2 == category

/-- Reports a conflict of lists unless this was done before. -/
def reportConflict (project : Value) (category : Category) : Work Admissions Unit := do
  if !project.canBeKey then throw .wrongType
  let admissions ← Work.state
  if !isReported admissions.reported project category then
    Work.setState { admissions with reported := admissions.reported ++ [(project, category)] }
    Work.say .error (conflictMessage project category)

/-- The lists of a category, none without a project. -/
def lists (project : Option Project) (category : Category) : Work Admissions Admission := do
  match project with
  | none => return ⟨[], []⟩
  | some p =>
      let lists := p.aiTools.listsFor category
      if lists.inConflict then reportConflict p.id category
      return lists

/-- Admission of an agent, a rulepack or a recipe. -/
def admits (category : Category) (id : Value) (project : Option Project) :
    Work Admissions Bool := do
  let found ← lists project category
  return found.lets fun entry => id.isAmong [entry]

def firstFilled (choices : List (Option String)) (fallback : String) : String :=
  ((choices.filterMap id).find? fun text => !text.isEmpty).getD fallback

/-- Admission of a prompt by id or path; its path is looked up where it is not given. -/
def admitsPrompt (id : String) (project : Option Project) (path : Option String) :
    Work Admissions Bool := do
  let found ← lists project .prompts
  let known := (← Work.state).promptPaths.lookup id
  let place := firstFilled [path, known] id
  return found.lets (promptMatches (Text.afterLast '/' id) place)

/-- Admission in a category given by its name. -/
def admitsIn (category : String) (id : String) (project : Option Project) :
    Work Admissions Bool := do
  match Category.ofName? category with
  | none => throw (.unknownCategory category)
  | some .prompts => admitsPrompt id project none
  | some other => admits other (.text id) project

end Admissions

end Playbook
