import Playbook.Manifest.Agent
import Playbook.Manifest.Feature
import Playbook.Manifest.Project
import Playbook.Manifest.Prompt
import Playbook.Manifest.Recipe
import Playbook.Manifest.Rulepack
import Playbook.Settings
import Playbook.Value.Order

/-!
# Stores of manifests

A store gives the manifests of a repository. Each of its four collections is
read from the files when it is first needed and kept from then on. A file
that cannot be used is passed over with a warning, and of two manifests with
one id the first in the order of paths counts.
-/

namespace Playbook

/-! ## Files of manifests -/

namespace Manifests

def suffixes : List String := [".yml", ".yaml"]

def projectFiles : List String := ["project.yml", "project.yaml"]

def featureFiles : List String := ["feature.yml", "feature.yaml"]

/-- Directories of fragments that are no manifests of their own. -/
def sharedDirs : List String := ["shared"]

def isListed (skipped : List String) (names : List String) : Bool :=
  let name := names.getLast?.getD ""
  suffixes.contains (Path.splitName name).2 && !name.startsWith "_" &&
    !names.dropLast.any skipped.contains

/-- The manifest files below a directory, in order. -/
def files (tree : Tree) (directory : Path) (skipped : List String) : Attempt (List Path) := do
  let names ← tree.filesBelow directory
  return Path.sort ((names.filter (isListed skipped)).map fun names =>
    { directory with names := directory.names ++ names })

/-- The first of some files that is there. -/
def firstFile? (tree : Tree) (directory : Path) (names : List String) : Attempt (Option Path) :=
  (names.map directory.child).findM? tree.isFile

def holdsFile (tree : Tree) (names : List String) (directory : Path) : Attempt Bool := do
  return (← firstFile? tree directory names).isSome

/-- Why a file holds no manifest. -/
inductive Unusable where
  | document (trouble : Tree.DocumentTrouble)
  | empty
  | notMapping

def Unusable.reason (path : Path) : Unusable → String
  | .document .malformed => "invalid YAML: " ++ Tree.DocumentTrouble.malformedText
  | .document trouble => trouble.text path
  | .empty => "empty document"
  | .notMapping => "top level must be a mapping"

/-- The mapping in a file. -/
def document (tree : Tree) (path : Path) : Attempt (Except Unusable Value) := do
  match ← tree.document path with
  | .error trouble => return .error (.document trouble)
  | .ok v =>
      if !v.isGiven then return .error .empty
      else if v.isMapping then return .ok v
      else return .error .notMapping

/-- The mapping in a file, without which the work is given up. -/
def load (tree : Tree) (path : Path) : Attempt Value := do
  match ← document tree path with
  | .ok v => return v
  | .error unusable => throw (.unloadable path.text (unusable.reason path))

def skipWarning (path : Path) (unusable : Unusable) : LogEntry :=
  warn ("Skipping manifest " ++ path.text ++ ": " ++ unusable.reason path)

/-- The mappings in some files, without those that cannot be used. -/
def loadAll (tree : Tree) (paths : List Path) : Log × Attempt (List (Path × Value)) :=
  let results := paths.map fun path => (path, document tree path)
  let log := results.filterMap fun (path, result) =>
    match result with
    | .ok (.error unusable) => some (skipWarning path unusable)
    | _ => none
  let documents := results.mapM fun (path, result) => result.map fun found => (path, found)
  (log, documents.map fun found => found.filterMap fun (path, result) =>
    match result with
    | .ok v => some (path, v)
    | .error _ => none)

/-- A document with an id, which is put at its end where it has none. -/
def withId (id : Value) : Value → Value
  | .mapping entries =>
      if Entries.hasKey entries (.text "id") then .mapping entries
      else .mapping (entries ++ [(.text "id", id)])
  | .cycle name content => .cycle name (withId id content)
  | v => v

end Manifests

/-! ## Collections -/

namespace Collection

def faultWarning (kind : String) (path : Path) (fault : Fault) : LogEntry :=
  warn ("Skipping " ++ kind ++ " manifest " ++ path.text ++ ": " ++ fault.reason)

def duplicateWarning (kind : String) (id : Value) (path : Path) : LogEntry :=
  warn ("Duplicate " ++ kind ++ " id '" ++ id.display ++ "' in " ++ path.text ++
    "; keeping the first definition")

/-- The manifests of a kind, each with its file. -/
abbrev Items (α : Type) := List (Value × Path × α)

def addDocument (kind : String) (id : α → Value) (parse : Path → Value → Attempt α)
    (items : Items α) (path : Path) (document : Value) : Log × Attempt (Items α) :=
  match parse path document with
  | .error fault =>
      if fault.isContentFault then ([faultWarning kind path fault], .ok items)
      else ([], .error fault)
  | .ok manifest =>
      let key := id manifest
      if !key.canBeKey then ([], .error .wrongType)
      else if items.any fun item => item.1.same key then
        ([duplicateWarning kind key path], .ok items)
      else ([], .ok (items ++ [(key, path, manifest)]))

def addDocuments (kind : String) (id : α → Value) (parse : Path → Value → Attempt α)
    (items : Items α) : List (Path × Value) → Log × Attempt (Items α)
  | [] => ([], .ok items)
  | (path, document) :: rest =>
      match addDocument kind id parse items path document with
      | (log, .error fault) => (log, .error fault)
      | (log, .ok items) =>
          let (more, result) := addDocuments kind id parse items rest
          (log ++ more, result)

/-- What reading a directory of manifests writes and gives. -/
def read (tree : Tree) (directory : Path) (kind : String) (id : α → Value)
    (parse : Path → Value → Attempt α) (skipped : List String) : Log × Attempt (Items α) :=
  match Manifests.files tree directory skipped with
  | .error fault => ([], .error fault)
  | .ok paths =>
      match Manifests.loadAll tree paths with
      | (log, .error fault) => (log, .error fault)
      | (log, .ok documents) =>
          let (more, result) := addDocuments kind id parse [] documents
          (log ++ more, result)

end Collection

open Collection in
/-- Collections that have not been read are absent. -/
structure Store where
  tree : Tree
  settings : Settings
  rulepacks : Option (Items Rulepack)
  agents : Option (Items Agent)
  prompts : Option (Items Prompt)
  recipes : Option (Items Recipe)

namespace Store

def ofSettings (tree : Tree) (settings : Settings) : Store :=
  ⟨tree, settings, none, none, none, none⟩

def read (store : Store) (kind : String) (id : α → Value) (parse : Path → Value → Attempt α)
    (skipped : List String) : Log × Attempt (Collection.Items α) :=
  match store.settings.dirPath kind with
  | .error fault => ([], .error fault)
  | .ok directory => Collection.read store.tree directory kind id parse skipped

/-- The place of a prompt below the prompts directory, without an extension. -/
def promptPlace (store : Store) (path : Path) : String :=
  match store.settings.dirPath "prompts" with
  | .error _ => path.text
  | .ok directory =>
      (Path.withoutSuffix ⟨.here, (path.below? directory).getD path.names⟩).text

def readRulepacks (store : Store) : Log × Attempt (Collection.Items Rulepack) :=
  store.read "rulepacks" (·.id) (fun _ v => Rulepack.ofValue v) []

def readAgents (store : Store) : Log × Attempt (Collection.Items Agent) :=
  store.read "agents" (·.id) (fun _ v => Agent.ofValue v) []

def readPrompts (store : Store) : Log × Attempt (Collection.Items Prompt) :=
  store.read "prompts" (·.id) (fun path v => Prompt.ofValue v (store.promptPlace path))
    Manifests.sharedDirs

def readRecipes (store : Store) : Log × Attempt (Collection.Items Recipe) :=
  store.read "recipes" (·.id) (fun _ v => Recipe.ofValue v) []

/-- A collection that is kept, or read and kept from now on. -/
def kept (current : Store → Option (Collection.Items α))
    (reading : Store → Log × Attempt (Collection.Items α))
    (keep : Collection.Items α → Store → Store) : Work Store (Collection.Items α) := do
  let store ← Work.state
  match current store with
  | some items => return items
  | none =>
      let (log, result) := reading store
      Work.tell log
      let items ← Work.attempt result
      Work.setState (keep items store)
      return items

def rulepackItems : Work Store (Collection.Items Rulepack) :=
  kept (·.rulepacks) readRulepacks fun items store => { store with rulepacks := some items }

def agentItems : Work Store (Collection.Items Agent) :=
  kept (·.agents) readAgents fun items store => { store with agents := some items }

def promptItems : Work Store (Collection.Items Prompt) :=
  kept (·.prompts) readPrompts fun items store => { store with prompts := some items }

def recipeItems : Work Store (Collection.Items Recipe) :=
  kept (·.recipes) readRecipes fun items store => { store with recipes := some items }

/-- Reads all collections; a fault in one of them does not keep the others from being read. -/
def preload : Work Store Unit := do
  let rulepacks ← Work.caught rulepackItems
  let agents ← Work.caught agentItems
  let prompts ← Work.caught promptItems
  let recipes ← Work.caught recipeItems
  let _ ← Work.attempt rulepacks
  let _ ← Work.attempt agents
  let _ ← Work.attempt prompts
  let _ ← Work.attempt recipes

/-! ## Looking manifests up -/

def find? (items : Collection.Items α) (id : Value) : Attempt (Option (Path × α)) :=
  if id.canBeKey then .ok ((items.find? fun item => item.1.same id).map (·.2))
  else .error .wrongType

def getRulepack (id : Value) : Work Store (Option Rulepack) := do
  return (← Work.attempt (find? (← rulepackItems) id)).map (·.2)

def getAgent (id : Value) : Work Store (Option Agent) := do
  return (← Work.attempt (find? (← agentItems) id)).map (·.2)

def getPrompt (id : Value) : Work Store (Option Prompt) := do
  return (← Work.attempt (find? (← promptItems) id)).map (·.2)

def getRecipe (id : Value) : Work Store (Option Recipe) := do
  return (← Work.attempt (find? (← recipeItems) id)).map (·.2)

def recipePath (id : Value) : Work Store (Option Path) := do
  return (← Work.attempt (find? (← recipeItems) id)).map (·.1)

def dirText (kind : String) : Work Store String := do
  return (← Work.attempt ((← Work.state).settings.dirPath kind)).text

/-- The fault of a manifest that is not in a directory. -/
def absent (kind : String) (id : Value) (directory : Option String) : Work Store α := do
  let place ← match directory with
    | some name => some <$> dirText name
    | none => pure none
  throw (.notFound kind (← Work.attempt id.shown) place)

def loadRecipe (id : Value) : Work Store Recipe := do
  match ← getRecipe id with
  | some recipe => return recipe
  | none => absent "Recipe" id (some "recipes")

/-- The place of each prompt by its id. -/
def promptPaths : Work Store (List (Value × Value)) := do
  return (← promptItems).map fun item => (item.1, item.2.2.sourcePath)

def ids (items : Collection.Items α) : Attempt (List Value) :=
  match Value.sorted? (items.map (·.1)) with
  | some sorted => .ok sorted
  | none => .error .wrongType

def listRulepacks : Work Store (List Value) := do Work.attempt (ids (← rulepackItems))

def listAgents : Work Store (List Value) := do Work.attempt (ids (← agentItems))

def listPrompts : Work Store (List Value) := do Work.attempt (ids (← promptItems))

def listRecipes : Work Store (List Value) := do Work.attempt (ids (← recipeItems))

/-! ## Projects and features -/

/-- The directory of a project: the first with its name that holds a project file. -/
def findProjectDir (id : Value) : Work Store (Option Path) := do
  let store ← Work.state
  let dirs ← Work.attempt store.settings.projectDirs
  match id with
  | .text name =>
      Work.attempt ((dirs.map (·.child name)).findM?
        (Manifests.holdsFile store.tree Manifests.projectFiles))
  | _ => if dirs.isEmpty then return none else throw .wrongType

def distinct (names : List String) : List String :=
  names.foldl (fun seen name => if seen.contains name then seen else seen ++ [name]) []

def sortTexts (texts : List String) : List String :=
  texts.mergeSort fun a b => !decide (b < a)

def listProjects : Work Store (List String) := do
  let store ← Work.state
  let dirs ← Work.attempt store.settings.projectDirs
  let found ← Work.attempt (dirs.mapM fun source => do
    (← store.tree.subdirectories source).filterM
      (Manifests.holdsFile store.tree Manifests.projectFiles))
  return sortTexts (distinct (found.flatten.map (·.name)))

def unloadableIfContent (path : Path) (result : Attempt α) : Attempt α :=
  match result with
  | .error fault => if fault.isContentFault then .error (.unloadable path.text fault.reason)
      else .error fault
  | .ok a => .ok a

def loadProject (id : Value) : Work Store Project := do
  match ← findProjectDir id with
  | none => absent "Project" id (some "projects")
  | some dir =>
      let tree := (← Work.state).tree
      match ← Work.attempt (Manifests.firstFile? tree dir Manifests.projectFiles) with
      | none => absent "Project" id (some "projects")
      | some path =>
          let document ← Work.attempt (Manifests.load tree path)
          Work.attempt (unloadableIfContent path
            (Project.ofValue (Manifests.withId id document) dir.text))

/-- A feature takes the name of its directory for an id that it lacks. -/
def parseFeature (path : Path) (document : Value) : Attempt Feature :=
  Feature.ofValue (Manifests.withId (.text path.parent.name) document)

def featureFiles (tree : Tree) (projectDir : Path) : Attempt (List Path) := do
  (← tree.subdirectories (projectDir.child "features")).filterMapM fun dir =>
    Manifests.firstFile? tree dir Manifests.featureFiles

def addFeature (features : List Feature) (entry : Path × Value) : Work Store (List Feature) := do
  match parseFeature entry.1 entry.2 with
  | .ok feature => return features ++ [feature]
  | .error fault =>
      if fault.isContentFault then
        Work.tell [Collection.faultWarning "feature" entry.1 fault]
        return features
      else throw fault

/-- The features below the directory of a project, without those that cannot be used. -/
def loadFeatures (project : Value) : Work Store (List Feature) := do
  match ← findProjectDir project with
  | none => return []
  | some dir =>
      let tree := (← Work.state).tree
      let (log, documents) := Manifests.loadAll tree (← Work.attempt (featureFiles tree dir))
      Work.tell log
      (← Work.attempt documents).foldlM addFeature []

def loadFeature (project id : Value) : Work Store Feature := do
  match (← loadFeatures project).find? fun feature => feature.id.same id with
  | some feature => return feature
  | none => absent "Feature" id none

end Store

end Playbook
