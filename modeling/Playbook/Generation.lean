import Playbook.Recipe.Compilation
import Playbook.Resolution.Rules
import Playbook.Store

/-!
# Scripts of a project

Generation writes a script for each recipe that a project lets in and for
each of its features that names a recipe. A recipe or feature that gives no
script is skipped with its reason, and the others go on.
-/

namespace Playbook

structure WrittenScript where
  path : Path
  recipe : Value
  tool : String
  feature : Option Value

/-- A unit that gave no script, and why. -/
structure Skipped where
  unit : Value
  reason : String

structure Generation where
  written : List WrittenScript
  skipped : List Skipped

namespace Generation

def empty : Generation := ⟨[], []⟩

def append (g h : Generation) : Generation := ⟨g.written ++ h.written, g.skipped ++ h.skipped⟩

def ofWritten (script : WrittenScript) : Generation := ⟨[script], []⟩

def ofSkipped (unit : Value) (reason : String) : Generation := ⟨[], [⟨unit, reason⟩]⟩

end Generation

/-! ## Targets -/

/-- The tools that the feature names, else those of the recipe, else the usual ones. -/
def Feature.targets (feature : Feature) (recipe : Recipe) (usual : List Value) : List Value :=
  let named := ((feature.recipe.map (·.tools)).getD []).map Value.text
  if !named.isEmpty then named
  else if !recipe.tools.isEmpty then recipe.tools.map Value.text
  else usual

/-! ## Compiling from a store -/

/-- A store together with what a run of compilations over it remembers. -/
structure Bench where
  store : Store
  cache : AgentCache
  admissions : Admissions

namespace Store

/-- The agents, which a run reads when it first needs one. -/
def agentShelf (store : Store) : Shelf Agent :=
  let byId := fun items : Collection.Items Agent => items.map fun item => (item.1, item.2.2)
  match store.agents with
  | some items => .ready (byId items)
  | none => let (log, result) := store.readAgents; .unread log (result.map byId)

def rulepackShelf (store : Store) : Shelf Rulepack :=
  let byId := fun items : Collection.Items Rulepack => items.map fun item => (item.1, item.2.2)
  match store.rulepacks with
  | some items => .ready (byId items)
  | none => let (log, result) := store.readRulepacks; .unread log (result.map byId)

/-- What a read shelf leaves in its store. -/
def keepAgents (store : Store) (shelf : Shelf Agent) : Store :=
  match store.agents, shelf with
  | none, .ready _ => { store with agents := store.readAgents.2.toOption }
  | _, _ => store

def keepRulepacks (store : Store) (shelf : Shelf Rulepack) : Store :=
  match store.rulepacks, shelf with
  | none, .ready _ => { store with rulepacks := store.readRulepacks.2.toOption }
  | _, _ => store

/-- Fresh admissions with the places of the prompts. -/
def admissions : Work Store Admissions := do
  let paths ← promptPaths
  return ⟨paths.filterMap fun
    | (.text id, .text path) => some (id, path)
    | _ => none, []⟩

/-- Work on rules with the given admissions, which are not kept. -/
def resolvingWith (admissions : Admissions) (work : Work Resolver α) : Work Store α :=
  Work.within (fun store : Store => (⟨admissions, store.rulepackShelf⟩ : Resolver))
    (fun resolver store => store.keepRulepacks resolver.rulepacks) work

end Store

namespace Bench

def inStore (work : Work Store α) : Work Bench α :=
  Work.within (·.store) (fun store bench => { bench with store }) work

/-- A compilation on the agents of the store. -/
def inRun (work : Work Run α) : Work Bench α :=
  Work.within (fun bench => ⟨⟨bench.store.agentShelf, bench.cache⟩, bench.admissions⟩)
    (fun run bench =>
      { store := bench.store.keepAgents run.agents.shelf
        cache := run.agents.cache
        admissions := run.admissions }) work

def inAdmissions (work : Work Admissions α) : Work Bench α :=
  Work.within (·.admissions) (fun admissions bench => { bench with admissions }) work

/-- Work with fresh admissions and no agent looked up. -/
def fresh (work : Work Bench α) : Work Store α := do
  let admissions ← Store.admissions
  Work.within (⟨·, [], admissions⟩) (fun bench _ => bench.store) work

end Bench

/-- What scripts are generated for. -/
structure Order where
  project : Project
  time : String
  registry : Registry

namespace Order

def setting (order : Order) (settings : Settings) (feature : Option Feature) : Setting :=
  { project := some order.project, feature
    docsDir := settings.docsDir, logsDir := settings.logsDir, registry := order.registry }

/-- The directory for the scripts of a project and a tool. -/
def outputDir (order : Order) (settings : Settings) (backend : Backend) : Attempt Path :=
  match order.project.id with
  | .text id =>
      .ok (((settings.outputRoot.child id).child backend.id).child backend.recipesDir)
  | _ => .error .wrongType

def write (path : Path) (text : String) : Work Store Unit := do
  let store ← Work.state
  let (tree, outcome) := store.tree.writeScript store.settings.root path text
  Work.setState { store with tree }
  Work.attempt outcome
  Work.say .info ("Generated " ++ path.text)

/-- A script, or the reason for which the recipe gives none. -/
def compile (order : Order) (feature : Option Feature) (recipe : Recipe) (tool : String) :
    Work Bench (Except Fault String) := do
  let settings := (← Work.state).store.settings
  let setting := order.setting settings feature
  match ← Work.caught (Bench.inRun (setting.compile recipe (.text tool) order.time)) with
  | .ok text => return .ok text
  | .error (.uncompilable id reason) => return .error (.uncompilable id reason)
  | .error fault => throw fault

def reasonOf : Fault → String
  | .uncompilable _ reason => reason
  | fault => fault.message

/-! ## Recipes -/

def recipeScript (order : Order) (backend : Backend) (directory : Path) (id : Value)
    (recipe : Recipe) : Work Bench Generation := do
  match ← order.compile none recipe backend.id with
  | .error fault =>
      let place ← Bench.inStore (Store.recipePath id)
      Work.say .error (fault.message ++ " (" ++ (place.map (·.text)).getD "" ++ ")")
      return .ofSkipped id (reasonOf fault)
  | .ok text =>
      let path := directory.child (id.display ++ ".sh")
      Bench.inStore (write path text)
      return .ofWritten ⟨path, id, backend.id, none⟩

def recipe (order : Order) (backend : Backend) (directory : Path) (id : Value) :
    Work Bench Generation := do
  match ← Bench.inStore (Store.getRecipe id) with
  | none => throw .lacksOperation
  | some recipe =>
      if !recipe.isFor backend.id then return .empty
      let admitted ← Bench.inAdmissions (Admissions.admits .recipes id (some order.project))
      if !admitted then
        Work.say .info
          ("Recipe " ++ id.display ++ " excluded by project " ++ order.project.id.display)
        return .empty
      order.recipeScript backend directory id recipe

/-- Scripts for all recipes that are for a tool and that the project lets in. -/
def recipes (order : Order) (tool : Value) : Work Store Generation := do
  let backend ← Work.attempt (order.registry.getNamed tool)
  let store ← Work.state
  let source ← Work.attempt (store.settings.dirPath "recipes")
  if !(← Work.attempt (store.tree.isDirectory source)) then
    Work.tell [warn ("No recipes directory at " ++ source.text ++ "; nothing to generate")]
    return .ofSkipped (.text "recipes") ("missing directory " ++ source.text)
  Bench.fresh do
    let directory ← Work.attempt (order.outputDir store.settings backend)
    let ids ← Bench.inStore Store.listRecipes
    ids.foldlM (fun done id => do
      return done.append (← order.recipe backend directory id)) .empty

/-! ## Features -/

def featureUnit (feature : Feature) : Attempt Value := do
  return .text ("feature-" ++ (← feature.id.shown))

/-- Scripts of a feature for its tools; a recipe that cannot be compiled ends them. -/
def featureScripts (order : Order) (wanted : List Value) (feature : Feature) (recipe : Recipe) :
    List Value → Generation → Work Bench Generation
  | [], done => return done
  | tool :: rest, done => do
      if !wanted.isEmpty then
        if !tool.canBeKey then throw .wrongType
        if !wanted.any (·.same tool) then
          return ← order.featureScripts wanted feature recipe rest done
      match ← Work.attempt (order.registry.findNamed? tool) with
      | none =>
          Work.tell [warn ("Feature " ++ feature.id.display ++ " targets unknown tool '" ++
            tool.display ++ "'; skipping")]
          let skipped := Generation.ofSkipped (← Work.attempt (featureUnit feature))
            ("unknown tool " ++ (← Work.attempt tool.shown))
          order.featureScripts wanted feature recipe rest (done.append skipped)
      | some backend =>
          match ← order.compile (some feature) recipe backend.id with
          | .error fault =>
              Work.say .error ("Feature " ++ feature.id.display ++ ": " ++ fault.message)
              let unit ← Work.attempt (featureUnit feature)
              return done.append (.ofSkipped unit (reasonOf fault))
          | .ok text =>
              let directory ← Work.attempt
                (order.outputDir (← Work.state).store.settings backend)
              let path := directory.child ("feature-" ++ feature.id.display ++ ".sh")
              Bench.inStore (write path text)
              order.featureScripts wanted feature recipe rest
                (done.append (.ofWritten ⟨path, recipe.id, backend.id, some feature.id⟩))

def feature (order : Order) (wanted : List Value) (feature : Feature) :
    Work Bench Generation := do
  match feature.recipe with
  | none => return .empty
  | some binding =>
      match ← Bench.inStore (Store.getRecipe binding.id) with
      | none =>
          Work.tell [warn ("Feature " ++ feature.id.display ++ " references missing recipe '" ++
            binding.id.display ++ "'; skipping")]
          return .ofSkipped (← Work.attempt (featureUnit feature))
            ("recipe " ++ (← Work.attempt binding.id.shown) ++ " not found")
      | some recipe =>
          Work.change fun bench => { bench with cache := [] }
          let usual := (← Work.state).store.settings.defaultTools
          order.featureScripts wanted feature recipe (feature.targets recipe usual) .empty

/-- Scripts for all features of the project, for the wanted tools if any are named. -/
def features (order : Order) (wanted : List Value) : Work Store Generation :=
  Bench.fresh do
    if wanted.any fun tool => !tool.canBeKey then throw .wrongType
    let features ← Bench.inStore (Store.loadFeatures order.project.id)
    features.foldlM (fun done feature => do
      return done.append (← order.feature wanted feature)) .empty

end Order

/-- All scripts of a project: those of its recipes for each tool, then those of its features. -/
def Store.generate (id : Value) (wanted : List Value) (registry : Registry) (time : String) :
    Work Store Generation := do
  let project ← loadProject id
  let usual := (← Work.state).settings.defaultTools
  let order : Order := { project, time, registry }
  let ofRecipes ← (if wanted.isEmpty then usual else wanted).foldlM (fun done tool => do
    return Generation.append done (← order.recipes tool)) .empty
  return ofRecipes.append (← order.features wanted)

end Playbook
