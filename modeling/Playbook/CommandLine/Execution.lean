import Playbook.CommandLine.Request
import Playbook.Filling
import Playbook.Generation
import Playbook.Validation
import Playbook.Value.Json
import Playbook.Workspace

/-!
# Carrying out requests

Each request is work on a workspace that gives what is printed and an exit
code: zero for success, one for a repository that fails validation, two for
what cannot be done.
-/

namespace Playbook

structure Printed where
  out : String
  err : String
  exit : Nat
deriving DecidableEq, Repr, Inhabited

namespace Printed

def success (out : String) : Printed := ⟨out, "", 0⟩

def failure (err : String) : Printed := ⟨"", err, 2⟩

def lines (texts : List String) : String := String.join (texts.map (· ++ "\n"))

end Printed

namespace CommandLine

open Printed

/-- A value on the command line counts if it is not empty. -/
def given (value : Option String) : Option String := value.filter fun text => !text.isEmpty

/-- What is no text is an empty list. -/
def valueOf (text : Option String) : Value := (text.map Value.text).getD (.list [])

def loadGiven (load : Value → Work Store α) (id : Option String) : Work Store (Option α) := do
  match id with
  | none => return none
  | some id => return some (← load (.text id))

/-! ## Scripts -/

def order (store : Store) (project : Option Project) (feature : Option Feature) : Setting :=
  { project, feature
    docsDir := store.settings.docsDir
    logsDir := store.settings.logsDir
    registry := Registry.builtIn }

/-- The script for a recipe of the store. -/
def compileText (recipe tool : Value) (time : String) (project : Option Project)
    (feature : Option Feature) : Work Store String :=
  Bench.fresh do
    let loaded ← Bench.inStore (Store.loadRecipe recipe)
    let setting := order (← Work.state).store project feature
    Bench.inRun (setting.compile loaded tool time)

def compile (recipe : String) (tool : Value) (time : String)
    (project feature : Option String) : Work Store String := do
  let loaded ← loadGiven Store.loadProject (given project)
  match given feature, given project with
  | some _, none => throw (.plain "--feature requires --project")
  | some id, some owner =>
      let found ← Store.loadFeature (.text owner) (.text id)
      compileText (.text recipe) tool time loaded (some found)
  | none, _ => compileText (.text recipe) tool time loaded none

def generationText (generation : Generation) : Printed :=
  { out := lines (generation.written.map (·.path.text)) ++ "\n" ++
      toString generation.written.length ++ " script(s) generated, " ++
      toString generation.skipped.length ++ " skipped\n"
    err := lines (generation.skipped.map fun skipped =>
      "SKIPPED: " ++ skipped.unit.display ++ ": " ++ skipped.reason)
    exit := 0 }

/-! ## Lists -/

def padded (width : Nat) (text : String) : String :=
  text ++ String.ofList (List.replicate (width - text.length) ' ')

def toolLine (backend : Backend) : String :=
  let mode := if backend.capabilities.programmatic then "cli" else "manual"
  padded 16 backend.id ++ " " ++ padded 7 mode ++ " " ++ padded 24 backend.recipesDir ++ " " ++
    backend.capabilities.label

/-- The ids of a kind of manifest; tools are no manifests. -/
def idsOf? : Listing → Option (Work Store (List Value))
  | .recipes => some Store.listRecipes
  | .agents => some Store.listAgents
  | .prompts => some Store.listPrompts
  | .rulepacks => some Store.listRulepacks
  | .projects => some do return (← Store.listProjects).map .text
  | .tools => none

def reportOf (fault : Fault) : String := "ERROR: " ++ fault.message ++ "\n"

/-- One id a line, up to one that is too long to be shown. -/
def idLines (ids : List Value) : Printed :=
  let out := lines ((ids.takeWhile (·.isShowable)).map (·.display))
  if ids.all (·.isShowable) then success out else ⟨out, reportOf (.tooManyDigits none), 2⟩

/-! ## Rules and models -/

/-- The languages of a named stack of the project, none if no stack is named. -/
def stackLanguages (project : Option Project) (stack : Option String) :
    Attempt (List String) :=
  match given stack, project with
  | none, _ => .ok []
  | some _, none => .error .stackNeedsProject
  | some name, some p =>
      match p.stack? name with
      | some found => .ok found.languages
      | none => .error (.notFound "Tech stack" name none)

def rules (agent project stack : Option String) : Work Store (List String) := do
  let project ← loadGiven Store.loadProject (given project)
  if agent.isNone && project.isNone then throw .rulesNeedTarget
  let languages ← Work.attempt (stackLanguages project stack)
  let admissions ← Store.admissions
  match agent, project with
  | some id, _ =>
      match ← Store.getAgent (.text id) with
      | none => throw (.notFound "Agent" id (some (← Store.dirText "agents")))
      | some found => Store.resolvingWith admissions (Resolver.agentRules found project languages)
  | none, some p => Store.resolvingWith admissions (Resolver.projectRules p languages)
  | none, none => throw .rulesNeedTarget

def warnMissing (kind : String) (id : Option String) (found : Option α) : Work Store Unit := do
  match id, found with
  | some id, none => Work.tell [warn (kind ++ " not found: " ++ id)]
  | _, _ => return

def modelText (sources : ModelSources) : String :=
  match sources.choice? with
  | none => "(none)\n"
  | some choice => choice.model ++ "\t" ++ choice.layer.label ++ "\n"

def model (project feature agent prompt : Option String) : Work Store String := do
  let loaded ← loadGiven Store.loadProject (given project)
  let found ← match given project, given feature with
    | some owner, some id => some <$> Store.loadFeature (.text owner) (.text id)
    | _, _ => pure none
  let foundAgent ← loadGiven Store.getAgent (given agent)
  let foundPrompt ← loadGiven Store.getPrompt (given prompt)
  warnMissing "Agent" (given agent) foundAgent.join
  warnMissing "Prompt" (given prompt) foundPrompt.join
  return modelText {
    feature := found, project := loaded, agent := foundAgent.join, prompt := foundPrompt.join }

/-! ## Prompts -/

/-- A name and a value from `name=value`; blanks around the name do not count. -/
def assignment (given : Option String) : Attempt (Value × Value) :=
  match given.map cutAtEquals with
  | some (name, some value) => .ok (.text (Text.trim name), .text value)
  | _ => .error (.notAnAssignment (valueOf given).display)

def fillPrompt (id : String) (assignments : List (Option String)) : Work Store String := do
  match ← Store.getPrompt (.text id) with
  | none => throw (.notFound "Prompt" id (some (← Store.dirText "prompts")))
  | some prompt =>
      let pairs ← Work.attempt (assignments.mapM assignment)
      Work.attempt (prompt.fill (Entries.ofList pairs) true)

/-! ## Requests -/

def validationText (report : Report) (json : Bool) : Printed :=
  { out := (if json then report.document.json 0 else report.render) ++ "\n"
    err := ""
    exit := if report.hasErrors then 1 else 0 }

/-- Carries out a request; scripts bear the time. -/
def perform (root : Option Path) (time : String) : Request → Work Workspace Printed
  | .list listing =>
      match idsOf? listing with
      | none => return success (lines (Registry.builtIn.all.map toolLine))
      | some ids => do
          let settings ← Workspace.settings root
          return idLines (← Workspace.inNewStore settings ids)
  | .compile recipe tool project feature output => do
      let settings ← Workspace.settings root
      let text ← Workspace.inNewStore settings
        (compile recipe (valueOf tool) time project feature)
      match given output with
      | none => return success text
      | some place =>
          let path := Path.ofText place
          Workspace.writeScript path text
          return success ("Wrote " ++ path.text ++ "\n")
  | .generate project tools => do
      let settings ← Workspace.settings root
      return generationText (← Workspace.inNewStore settings
        (Store.generate (.text project) (tools.map valueOf) Registry.builtIn time))
  | .rules agent project stack => do
      let settings ← Workspace.settings root
      let found ← Workspace.inNewStore settings (rules agent project stack)
      return success (lines (found.map ("- " ++ ·)))
  | .model project feature agent prompt => do
      let settings ← Workspace.settings root
      return success (← Workspace.inNewStore settings (model project feature agent prompt))
  | .fillPrompt prompt assignments => do
      let settings ← Workspace.settings root
      let text ← Workspace.inNewStore settings (fillPrompt prompt assignments)
      return success (text ++ "\n")
  | .validate json => do
      let settings ← Workspace.settings root
      let tree := (← Work.state).tree
      let report ← Work.attempt (validate tree settings (some (Registry.builtIn.ids)))
      return validationText report json

/-- Faults of manifests and of values are printed; others come through. -/
def reported (work : Work Workspace Printed) : Work Workspace Printed := do
  match ← Work.caught work with
  | .ok printed => return printed
  | .error fault =>
      if fault.isManifestFault || fault.isValueFault then
        return failure (reportOf fault)
      throw fault

def stopText : Stop → Printed
  | .version => success (versionText ++ "\n")
  | .help command => success (usage command)
  | .trouble trouble => failure (usage none ++ programName ++ ": error: " ++ trouble.text ++ "\n")

/-- Runs the program on the words behind its name. -/
def run (words : List String) (time : String) : Work Workspace Printed := do
  match read words with
  | .error stop => return stopText stop
  | .ok line => reported (perform ((given line.root).map Path.ofText) time line.request)

end CommandLine

end Playbook
