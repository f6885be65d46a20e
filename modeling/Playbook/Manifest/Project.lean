import Playbook.Value.Reading
import Playbook.Text.Case

/-!
# Projects

A project has lists that let manifests of four categories in or keep them
out, and technology stacks: one for the whole project and named ones for its
parts.
-/

namespace Playbook

inductive Category where
  | agents
  | prompts
  | rulepacks
  | recipes
deriving DecidableEq, Repr, Inhabited

namespace Category

def all : List Category := [.agents, .prompts, .rulepacks, .recipes]

def name : Category → String
  | .agents => "agents"
  | .prompts => "prompts"
  | .rulepacks => "rulepacks"
  | .recipes => "recipes"

def ofName? (name : String) : Option Category := all.find? fun category => category.name == name

end Category

/-- The two lists of a category; a manifest should use one of them at most. -/
structure Admission where
  whitelist : List String
  blacklist : List String
deriving DecidableEq, Repr, Inhabited

structure AiTools where
  model : Option String
  agents : Admission
  prompts : Admission
  rulepacks : Admission
  recipes : Admission
  preferredAgents : List String
  preferredRulepacks : List String
  customRules : List String
deriving Inhabited

namespace AiTools

def listsFor (tools : AiTools) : Category → Admission
  | .agents => tools.agents
  | .prompts => tools.prompts
  | .rulepacks => tools.rulepacks
  | .recipes => tools.recipes

def whitelistField (category : Category) : String := "whitelist_" ++ category.name

def blacklistField (category : Category) : String := "blacklist_" ++ category.name

def admissionOf (v : Value) (category : Category) : Attempt Admission := do
  let whitelist ← (← v.field (whitelistField category)).texts
  let blacklist ← (← v.field (blacklistField category)).texts
  return { whitelist, blacklist }

def ofValue (v : Value) : Attempt AiTools := do
  let model ← (← v.field "model").optionalText
  let agents ← admissionOf v .agents
  let prompts ← admissionOf v .prompts
  let rulepacks ← admissionOf v .rulepacks
  let recipes ← admissionOf v .recipes
  let preferredAgents ← (← v.field "preferred_agents").texts
  let preferredRulepacks ← (← v.field "preferred_rulepacks").texts
  let customRules ← (← v.field "custom_rules").texts
  return { model, agents, prompts, rulepacks, recipes
           preferredAgents, preferredRulepacks, customRules }

end AiTools

structure TechStack where
  languages : List String
  frontend : List String
  backend : List String
  database : List String
  infrastructure : List String
  tools : List String
deriving DecidableEq, Repr, Inhabited

namespace TechStack

def ofValue (v : Value) : Attempt TechStack := do
  let languages ← (← v.field "languages").texts
  let frontend ← (← v.field "frontend").texts
  let backend ← (← v.field "backend").texts
  let database ← (← v.field "database").texts
  let infrastructure ← (← v.field "infrastructure").texts
  let tools ← (← v.field "tools").texts
  return { languages, frontend, backend, database, infrastructure, tools }

end TechStack

structure Project where
  id : Value
  name : Value
  version : String
  description : Value
  aiTools : AiTools
  techStack : TechStack
  techStacks : List (String × TechStack)
  sourceDir : String
deriving Inhabited

namespace Project

/-- A named stack; of several with one name, the last. -/
def stack? (project : Project) (name : String) : Option TechStack :=
  project.techStacks.reverse.lookup name

/-- The languages of all stacks in small letters, each once, in order of appearance. -/
def allLanguages (project : Project) : List String :=
  ((project.techStack :: project.techStacks.map (·.2)).flatMap fun stack =>
    stack.languages.map Text.lower).foldl
    (fun seen language => if seen.contains language then seen else seen ++ [language]) []

def stackEntry (entry : Value × Value) : Attempt (String × TechStack) := do
  let name ← entry.1.shown
  return (name, ← TechStack.ofValue (entry.2.orElse (.mapping [])))

def ofValue (v : Value) (sourceDir : String) : Attempt Project := do
  let named := (← v.field "tech_stacks").orElse (.mapping [])
  let empty := Value.text ""
  let id ← v.required "id"
  let name ← v.field "name"
  let version ← (← v.fieldOr "version" empty).shown
  let description ← v.field "description"
  let aiTools ← AiTools.ofValue ((← v.field "ai_tools").orElse (.mapping []))
  let techStack ← TechStack.ofValue ((← v.field "tech_stack").orElse (.mapping []))
  let techStacks ← (← named.entries).mapM stackEntry
  return {
    id, version, aiTools, techStack, techStacks, sourceDir
    name := name.orElse empty
    description := description.orElse empty }

end Project

end Playbook
