import Playbook.Log
import Playbook.Settings.Overlay
import Playbook.Tree

/-!
# Settings

The settings of a repository say where its manifests are and where scripts
go. They come in layers: defaults, the configuration file, a local
configuration file over it, and the environment over all.
-/

namespace Playbook

structure Environment where
  root : Option String
  outputDir : Option String
deriving DecidableEq, Repr, Inhabited

structure Settings where
  root : Path
  directories : List (String × String)
  outputDir : String
  docsDir : String
  logsDir : String
  projectSources : List Value
  defaultTools : List Value
  maxWorkers : Int
  sources : List String
deriving Inhabited

namespace Settings

def rootVariable : String := "MANIFOLD_ROOT"

def outputVariable : String := "MANIFOLD_OUTPUT_DIR"

def configDir : String := "15_config"

def configFiles : List String := ["config.yml", "config.local.yml"]

/-- Directories of which a repository holds at least one. -/
def rootMarkers : List String := [configDir, "05_recipes", "04_agents"]

def textList (texts : List String) : Value := .list (texts.map .text)

def defaultDirectories : List (String × String) :=
  [("rulepacks", "01_rulepacks"),
   ("skills", "02_skills"),
   ("prompts", "03_prompts"),
   ("agents", "04_agents"),
   ("recipes", "05_recipes"),
   ("projects", "06_projects")]

def defaultConfig : Value := .mapping
  [(.text "directories",
      .mapping (defaultDirectories.map fun d => (.text d.1, .text d.2))),
   (.text "output_dir", .text ".output"),
   (.text "docs_dir", .text ".recipe-docs"),
   (.text "logs_dir", .text ".recipe-logs"),
   (.text "project_sources", textList ["global", "local"]),
   (.text "default_tools", textList ["claude-code", "copilot-cli", "cursor"]),
   (.text "max_workers", .int 8)]

/-! ## Places -/

def dirName (settings : Settings) (kind : String) : Attempt String :=
  match settings.directories.lookup kind with
  | some name => .ok name
  | none => .error (.unknownDirectory kind)

def dirPath (settings : Settings) (kind : String) : Attempt Path := do
  return settings.root.child (← settings.dirName kind)

/-- A relative output directory counts from the root of the repository. -/
def outputRoot (settings : Settings) : Path := settings.root.child settings.outputDir

def sourceDir (projects : Path) (source : Value) : Attempt Path :=
  match source with
  | .text name => .ok (projects.child name)
  | _ => .error .wrongType

/-- The directories of projects in the order in which they are searched. -/
def projectDirs (settings : Settings) : Attempt (List Path) := do
  let projects ← settings.dirPath "projects"
  settings.projectSources.mapM (sourceDir projects)

/-- The place that a path leads to from the current directory. -/
def located (current path : Path) : Attempt Path :=
  if path.holdsZero then .error .zeroInPath else .ok (path.resolved current)

def isMarked (tree : Tree) (directory : Path) : Attempt Bool :=
  rootMarkers.anyM fun marker => tree.isDirectory (directory.child marker)

/-- The nearest directory from `start` upwards that looks like a repository, else `start`. -/
def findRoot (tree : Tree) (environment : Environment) (current start : Path) : Attempt Path :=
  match environment.root.filter fun root => !root.isEmpty with
  | some root => located current (Path.ofText root)
  | none => do
      let origin ← located current start
      return (← origin.upward.findM? (isMarked tree)).getD origin

/-! ## Layers -/

/-- The entries of a configuration file; one that cannot be used counts as empty. -/
def layer (tree : Tree) (path : Path) : Attempt (Entries × Log) := do
  if !(← tree.exists? path) then return ([], [])
  match ← tree.document path with
  | .error trouble =>
      return ([], [warn ("Ignoring unreadable config " ++ path.text ++ ": " ++
        trouble.text path)])
  | .ok found =>
      match found.opened with
      | .null => return ([], [])
      | .mapping entries => return (entries, [])
      | _ => return ([], [warn ("Ignoring config " ++ path.text ++
          ": top level must be a mapping")])

structure Layers where
  config : Value
  sources : List String

def addLayer (tree : Tree) (path : Path) (layers : Layers) : Work Unit Layers := do
  let (entries, log) ← Work.attempt (layer tree path)
  Work.tell log
  if entries.isEmpty then return layers
  return { config := layers.config.overlay (.mapping entries)
           sources := layers.sources ++ [path.text] }

def addEnvironment (environment : Environment) (layers : Layers) : Layers :=
  match environment.outputDir.filter fun dir => !dir.isEmpty with
  | none => layers
  | some dir =>
      { config := layers.config.overlay (.mapping [(.text "output_dir", .text dir)])
        sources := layers.sources ++ ["env:" ++ outputVariable] }

def get (config : Entries) (name : String) (default : Value) : Value :=
  (Entries.get? config name).getD default

def members (config : Entries) (name : String) : Attempt (List Value) :=
  ((get config name .null).orElse (.list [])).members

def ofLayers (root : Path) (layers : Layers) : Attempt Settings := do
  let config ← layers.config.entries
  let directories ← ((get config "directories" .null).orElse (.mapping [])).entries
  let directories ← directories.mapM fun d => do return (← d.1.shown, ← d.2.shown)
  let outputDir ← (get config "output_dir" (.text ".output")).shown
  let docsDir ← (get config "docs_dir" (.text ".recipe-docs")).shown
  let logsDir ← (get config "logs_dir" (.text ".recipe-logs")).shown
  let projectSources ← members config "project_sources"
  let defaultTools ← members config "default_tools"
  let maxWorkers ← (get config "max_workers" (.int 8)).whole
  return {
    root, directories, outputDir, docsDir, logsDir, projectSources, defaultTools, maxWorkers
    sources := layers.sources }

/-- The settings of a repository. -/
def load (tree : Tree) (environment : Environment) (root : Path) : Work Unit Settings := do
  let place := fun name => (root.child configDir).child name
  let layers ← configFiles.foldlM (fun layers name => addLayer tree (place name) layers)
    ⟨defaultConfig, ["defaults"]⟩
  Work.attempt (ofLayers root (addEnvironment environment layers))

end Settings

end Playbook
