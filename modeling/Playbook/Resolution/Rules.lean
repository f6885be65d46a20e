import Playbook.Inheritance.Flattening
import Playbook.Manifest.Agent
import Playbook.Resolution.Admission

/-!
# Rules in effect

The rules of an agent or of a project: its rulepacks, flattened, then the
project's own rules. For a project, rulepacks pass the project's lists, and
those with language tags pass its technology stacks.
-/

namespace Playbook

/-- Tags that speak of a language even where no stack names it. -/
def knownLanguages : List String :=
  ["java", "kotlin", "python", "typescript", "javascript", "go",
   "rust", "c++", "c#", "ruby", "php", "swift"]

/-- The given languages if there are any, else those of the project's own stack. -/
def languageContext (project : Project) (languages : List String) : List String :=
  (if languages.isEmpty then project.techStack.languages else languages).map Text.lower

/--
With languages in the context, a rulepack that is tagged with a language has
to share a tag with it. Without, a rulepack is left to the stacks of the
project whose languages are among its tags.
-/
def stackAllows (project : Project) (languages : List String) (pack : Rulepack) : Bool :=
  if pack.tags.isEmpty then true
  else
    let tags := pack.tags.map Text.lower
    let own := project.allLanguages
    let context := languageContext project languages
    if context.isEmpty then !tags.any own.contains
    else
      let specific := tags.any fun tag => knownLanguages.contains tag || own.contains tag
      !specific || tags.any context.contains

/-- What resolving rules works on. -/
structure Resolver where
  admissions : Admissions
  rulepacks : Shelf Rulepack

namespace Resolver

def inAdmissions (work : Work Admissions α) : Work Resolver α :=
  Work.within (·.admissions) (fun admissions resolver => { resolver with admissions }) work

def rulepackItems : Work Resolver (List (Value × Rulepack)) :=
  Work.within (·.rulepacks) (fun rulepacks resolver => { resolver with rulepacks }) Shelf.items

/-- The items whose id is a text. -/
def byText (items : List (Value × Rulepack)) : List (String × Rulepack) :=
  items.filterMap fun item => match item.1 with
    | .text id => some (id, item.2)
    | _ => none

/-- Admission of a rulepack by lists and stacks; an unknown one passes the stacks. -/
def admitsRulepack (id : String) (project : Option Project) (languages : List String) :
    Work Resolver Bool := do
  let listed ← inAdmissions (Admissions.admits .rulepacks (.text id) project)
  if !listed then return false
  match project with
  | none => return true
  | some p =>
      let packs := byText (← rulepackItems)
      return match packs.lookup id with
        | none => true
        | some pack => stackAllows p languages pack

/-- Rulepacks are read only if a root is listed. -/
def rulesOf (roots : List String) (project : Option Project) (referrer : String)
    (languages : List String) : Work Resolver (List String) := do
  if roots.isEmpty then return []
  let lists ← inAdmissions (Admissions.lists project .rulepacks)
  let admits := fun id => lists.lets (· == id)
  if !roots.any admits then return []
  let packs := byText (← rulepackItems)
  let allows := match project with
    | none => fun _ => true
    | some p => stackAllows p languages
  let flat := RulepackView.flatten ⟨packs, admits, allows⟩ referrer roots
  Work.tell flat.log
  return flat.rules

def agentRules (agent : Agent) (project : Option Project) (languages : List String) :
    Work Resolver (List String) := do
  let name ← Work.attempt agent.id.shown
  let rules ← rulesOf agent.rulepacks project ("agent " ++ name) languages
  return rules ++ (project.map (·.aiTools.customRules)).getD []

def projectRules (project : Project) (languages : List String) : Work Resolver (List String) := do
  let name ← Work.attempt project.id.shown
  let rules ← rulesOf project.aiTools.preferredRulepacks (some project) ("project " ++ name)
    languages
  return rules ++ project.aiTools.customRules

end Resolver

end Playbook
