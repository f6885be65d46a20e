import Playbook.Inheritance.Cycles
import Playbook.Report
import Playbook.Schema.Manifest
import Playbook.Store

/-!
# Validation of a repository

Every manifest file is checked by itself: against the schema of its kind, and
for the form of its id and version. Then the manifests are checked against
each other: ids, references, inheritance, lists, loops and tools.
-/

namespace Playbook

namespace Validation

/-! ## Forms of ids and versions -/

def isSmallOrDigit (c : Char) : Bool :=
  (decide ('a' ≤ c) && decide (c ≤ 'z')) || (decide ('0' ≤ c) && decide (c ≤ '9'))

/-- A text may end with one line feed that does not count. -/
def withoutLineEnd (text : List Char) : List Char :=
  if text.getLast? == some '\n' then text.dropLast else text

/-- Runs of small letters and digits with single hyphens between them. -/
def isKebabCase (id : String) : Bool :=
  (Text.pieces '-' (withoutLineEnd id.toList)).all fun run =>
    !run.isEmpty && run.all isSmallOrDigit

/-- Three numbers with points between them; the digits may be of any script. -/
def isVersion (version : String) : Bool :=
  let parts := Text.pieces '.' (withoutLineEnd version.toList)
  parts.length == 3 && parts.all fun part => !part.isEmpty && part.all Text.isDigit

/-! ## The state of a check -/

structure Document where
  path : Path
  value : Value

/-- Documents by id; of several with one id, the first. -/
abbrev Documents := List (String × Document)

structure FeatureReference where
  location : String
  recipe : Value
  path : Path

structure Check where
  report : Report
  documents : ManifestKind → Documents
  references : List FeatureReference

abbrev Checking := StateT Check Attempt

def addError (code : IssueCode) (location problem fix : String) (path : Path) : Checking Unit :=
  modify fun c =>
    { c with report := c.report.addError ⟨code.name, location, problem, fix, path.text⟩ }

def addWarning (code : IssueCode) (location problem fix : String) (path : Path) : Checking Unit :=
  modify fun c =>
    { c with report := c.report.addWarning ⟨code.name, location, problem, fix, path.text⟩ }

def countChecked : Checking Unit := modify fun c => { c with report := c.report.countChecked }

def documentsOf (kind : ManifestKind) : Checking Documents := return (← get).documents kind

def addDocument (kind : ManifestKind) (id : String) (document : Document) : Checking Unit :=
  modify fun c => { c with documents := fun k =>
    if k = kind then c.documents k ++ [(id, document)] else c.documents k }

/-! ## Single documents -/

def field (document : Value) (name : String) : Value :=
  match document.opened with
  | .mapping entries => (Entries.get? entries name).getD .null
  | _ => .null

def checkSchema (kind : ManifestKind) (location : String) (path : Path) (document : Value) :
    Checking Unit := do
  let errors ← (kind.schemaErrors document : Attempt (List (String × String)))
  errors.forM fun (place, message) =>
    addError .schema (location ++ " " ++ place) message
      ("Fix the " ++ kind.name ++ " manifest to match " ++ kind.name ++ ".schema.json") path

def idText (document : Value) : Attempt String := do (← document.fieldOr "id" (.text "")).shown

def checkForms (id location : String) (path : Path) (document : Value) : Checking Unit := do
  if !id.isEmpty && !isKebabCase id then
    addError .idFormat location ("id '" ++ id ++ "' is not kebab-case")
      "Use lowercase letters, digits and single hyphens" path
  let version := field document "version"
  if !version.isNull then
    let shown ← (version.shown : Attempt String)
    if !isVersion shown then
      addError .versionFormat location ("version '" ++ shown ++ "' is not MAJOR.MINOR.PATCH")
        "Use a semantic version such as 1.0.0" path

def register (kind : ManifestKind) (id location : String) (path : Path) (document : Value) :
    Checking Unit := do
  match (← documentsOf kind).lookup id with
  | some existing =>
      addError .duplicateId location ("id already defined in " ++ existing.path.text)
        "Rename one of the manifests" path
  | none => addDocument kind id ⟨path, document⟩

def locationOf (kind : ManifestKind) (id : String) (path : Path) : String :=
  kind.name ++ ":" ++ (if id.isEmpty then path.stem else id)

/-- Checks a document; one that is registered can be referred to. -/
def checkDocument (kind : ManifestKind) (path : Path) (document : Value) (registered : Bool) :
    Checking Unit := do
  countChecked
  let id ← (idText document : Attempt String)
  let location := locationOf kind id path
  checkSchema kind location path document
  checkForms id location path document
  if !id.isEmpty && registered then register kind id location path document

/-- The mapping in a file; a file without one is reported. -/
def load (tree : Tree) (kind : ManifestKind) (path : Path) : Checking (Option Value) := do
  match ← (Manifests.document tree path : Attempt _) with
  | .ok v => return some v
  | .error unusable =>
      countChecked
      addError .parse (kind.name ++ ":" ++ path.stem) (unusable.reason path)
        "Fix the YAML syntax" path
      return none

/-! ## Tools and features -/

def unknownTool (known : List String) (location : String) (path : Path) (tool : Value) :
    Checking Unit := do
  if !tool.canBeKey then throw .wrongType
  if !tool.isAmong known then
    let shown ← (tool.shown : Attempt String)
    addError .unknownTool location ("unknown tool '" ++ shown ++ "'")
      ("Use one of: " ++ Text.join ", " (Store.sortTexts (Store.distinct known))) path

/-- Without a list of known tools nothing is checked. -/
def checkTools (known : Option (List String)) (location : String) (tools : Value)
    (path : Path) : Checking Unit := do
  match known, tools.opened with
  | some known, .list tools => tools.forM (unknownTool known location path)
  | _, _ => pure ()

mutual

def holdsBacktick : Value → Bool
  | .text s => s.toList.contains '\x60'
  | .list items => anyBacktick items
  | .mapping entries => anyEntryBacktick entries
  | .cycle _ content => holdsBacktick content
  | _ => false

def anyBacktick : List Value → Bool
  | [] => false
  | v :: vs => holdsBacktick v || anyBacktick vs

def anyEntryBacktick : List (Value × Value) → Bool
  | [] => false
  | (_, v) :: es => holdsBacktick v || anyEntryBacktick es

end

/-- A document with an id; one that holds itself gets it outside and not inside. -/
def completed (id : String) (document : Value) : Value :=
  match document.opened with
  | .mapping entries =>
      if Entries.hasKey entries (.text "id") then document
      else .mapping (entries ++ [(.text "id", .text id)])
  | _ => document

def checkFeature (known : Option (List String)) (project : String) (path : Path)
    (document : Value) : Checking Unit := do
  let directory := path.parent.name
  let document' := completed directory document
  checkDocument .feature path document' false
  let id ← (idText document' : Attempt String)
  let location := "feature:" ++ project ++ "/" ++ id
  if holdsBacktick document then
    addError .forbiddenCharacter location "contains backticks"
      "Remove backticks; feature values are embedded in shell scripts" path
  let recipe := field document "recipe"
  if recipe.isMapping then
    checkTools known location (field recipe "tools") path
    modify fun c => { c with
      references := c.references ++ [⟨location, field recipe "id", path⟩] }

/-! ## Going through the repository -/

def directoryKinds : List (String × ManifestKind) :=
  [("rulepacks", .rulepack), ("agents", .agent), ("prompts", .prompt), ("recipes", .recipe)]

def collectDirectory (tree : Tree) (settings : Settings) (entry : String × ManifestKind) :
    Checking Unit := do
  let directory ← (settings.dirPath entry.1 : Attempt Path)
  let skipped := if entry.2 = .prompt then Manifests.sharedDirs else []
  let paths ← (Manifests.files tree directory skipped : Attempt (List Path))
  paths.forM fun path => do
    match ← load tree entry.2 path with
    | some document => checkDocument entry.2 path document true
    | none => pure ()

def collectProject (tree : Tree) (known : Option (List String)) (directory : Path) :
    Checking Unit := do
  match ← (Manifests.firstFile? tree directory Manifests.projectFiles : Attempt _) with
  | some path =>
      match ← load tree .project path with
      | some document =>
          checkDocument .project path (completed directory.name document) true
      | none => pure ()
  | none => pure ()
  let paths ← (Store.featureFiles tree directory : Attempt (List Path))
  paths.forM fun path => do
    match ← load tree .feature path with
    | some document => checkFeature known directory.name path document
    | none => pure ()

def collect (tree : Tree) (settings : Settings) (known : Option (List String)) :
    Checking Unit := do
  directoryKinds.forM (collectDirectory tree settings)
  let sources ← (settings.projectDirs : Attempt (List Path))
  sources.forM fun source => do
    let directories ← (tree.subdirectories source : Attempt (List Path))
    directories.forM (collectProject tree known)

/-! ## Manifests against each other -/

def knows (documents : Documents) (id : String) : Bool := (documents.lookup id).isSome

def missingText (kind ref : String) : String := "references unknown " ++ kind ++ " '" ++ ref ++ "'"

def missingFix (kind : String) : String := "Create the " ++ kind ++ " or remove the reference"

def missing (location kind ref : String) (path : Path) : Checking Unit :=
  addError .missingReference location (missingText kind ref) (missingFix kind) path

/-- Whether a reference names a document; it has to be a possible key. -/
def refersTo (documents : Documents) (ref : Value) : Attempt Bool :=
  if ref.canBeKey then .ok (ref.isAmong (documents.map (·.1))) else .error .wrongType

def requireKnown (documents : Documents) (location kind : String) (path : Path) (ref : Value) :
    Checking Unit := do
  if !(← (refersTo documents ref : Attempt Bool)) then
    missing location kind (← (ref.shown : Attempt String)) path

/-- The members of a field, none where it is not given. -/
def membersOf (document : Value) (name : String) : Attempt (List Value) :=
  ((field document name).orElse (.list [])).members

def textMembers (values : List Value) : List String :=
  values.filterMap fun v => match v with
    | .text s => some s
    | _ => none

def parentsOf (document : Value) : Attempt (List String) := do
  return textMembers (← membersOf document "extends")

def checkRulepacks : Checking Unit := do
  let documents ← documentsOf .rulepack
  let graph ← documents.mapM fun (id, document) => do
    let parents ← (parentsOf document.value : Attempt (List String))
    parents.forM fun parent => do
      if !knows documents parent then missing ("rulepack:" ++ id) "rulepack" parent document.path
    return (id, parents)
  (Graph.cycles graph).forM fun cycle => do
    let first := cycle.headD ""
    match documents.lookup first with
    | none => pure ()
    | some document =>
        addWarning .cyclicExtends ("rulepack:" ++ first)
          ("cyclic inheritance " ++ Text.join " -> " cycle)
          "Remove one extends edge; the cycle is truncated at resolution time" document.path

def checkAgents : Checking Unit := do
  let rulepacks ← documentsOf .rulepack
  (← documentsOf .agent).forM fun (id, document) => do
    let refs ← (membersOf document.value "rulepacks" : Attempt (List Value))
    refs.forM (requireKnown rulepacks ("agent:" ++ id) "rulepack" document.path)

/-- Checks a step against the ids of the steps before it, to which its own is added. -/
def checkStep (agents : Documents) (location : String) (path : Path) (seen : List Value)
    (entry : Value × Nat) : Checking (List Value) := do
  let place := location ++ " steps." ++ toString entry.2
  let id := field entry.1 "id"
  if !id.canBeKey then throw .wrongType
  if seen.any (·.same id) then
    let shown ← (id.shown : Attempt String)
    addError .duplicateId place ("step id '" ++ shown ++ "' is used twice")
      "Give each step a unique id" path
  let agent := field entry.1 "agent"
  if agent.isGiven then requireKnown agents place "agent" path agent
  return seen ++ [id]

def checkLoop (location : String) (path : Path) (ids : List Value) (loop : Value) :
    Checking Unit := do
  if loop.isMapping then
    let refs ← (membersOf loop "steps" : Attempt (List Value))
    refs.forM fun ref => do
      if !ref.canBeKey then throw .wrongType
      if !ids.any (·.same ref) then
        let shown ← (ref.shown : Attempt String)
        addError .loopReference (location ++ " loop")
          ("loop references unknown step '" ++ shown ++ "'")
          "List only ids of steps in this recipe" path

def checkRecipes (known : Option (List String)) : Checking Unit := do
  let agents ← documentsOf .agent
  (← documentsOf .recipe).forM fun (id, document) => do
    let location := "recipe:" ++ id
    let members ← (membersOf document.value "steps" : Attempt (List Value))
    let steps := (members.filter (·.isMapping)).zipIdx
    let ids ← steps.foldlM (checkStep agents location document.path) []
    checkLoop location document.path ids (field document.value "loop")
    checkTools known location (field document.value "tools") document.path

/-- The categories in which both lists have members. -/
def listConflicts (aiTools : Value) : Attempt (List Category) := do
  let entries ← aiTools.entries
  let given := fun name => ((Entries.get? entries name).getD .null).isGiven
  return Category.all.filter fun category =>
    given (AiTools.whitelistField category) && given (AiTools.blacklistField category)

def checkConflict (location : String) (path : Path) (category : Category) : Checking Unit :=
  let whitelist := AiTools.whitelistField category
  let blacklist := AiTools.blacklistField category
  addError .listConflict (location ++ " ai_tools")
    (whitelist ++ " and " ++ blacklist ++ " are both set")
    ("Keep only one of " ++ whitelist ++ " / " ++ blacklist) path

def listNames (category : Category) : List String :=
  [AiTools.whitelistField category, AiTools.blacklistField category] ++
    (if category = .recipes then [] else ["preferred_" ++ category.name])

def checkList (documents : Documents) (location kind : String) (path : Path) (aiTools : Value)
    (name : String) : Checking Unit := do
  let refs ← (membersOf aiTools name : Attempt (List Value))
  refs.forM fun ref => do
    if !(← (refersTo documents ref : Attempt Bool)) then
      let shown ← (ref.shown : Attempt String)
      addWarning .missingReference (location ++ " ai_tools." ++ name)
        (missingText kind shown) (missingFix kind) path

/-- The categories of lists whose members are looked up, with the kinds they name. -/
def listedKinds : List (Category × ManifestKind) :=
  [(.agents, .agent), (.rulepacks, .rulepack), (.recipes, .recipe)]

def checkProjects : Checking Unit := do
  (← documentsOf .project).forM fun (id, document) => do
    let location := "project:" ++ id
    let aiTools := (field document.value "ai_tools").orElse (.mapping [])
    if aiTools.isMapping then
      let conflicts ← (listConflicts aiTools : Attempt (List Category))
      conflicts.forM (checkConflict location document.path)
      listedKinds.forM fun (category, kind) => do
        let documents ← documentsOf kind
        (listNames category).forM
          (checkList documents location kind.name document.path aiTools)

def checkReferences : Checking Unit := do
  let recipes ← documentsOf .recipe
  (← get).references.forM fun reference => do
    if reference.recipe.isGiven then
      requireKnown recipes reference.location "recipe" reference.path reference.recipe

def checkAll (tree : Tree) (settings : Settings) (known : Option (List String)) :
    Checking Unit := do
  collect tree settings known
  checkRulepacks
  checkAgents
  checkRecipes known
  checkProjects
  checkReferences

end Validation

/-- The report on a repository; tools are checked if the known ones are given. -/
def validate (tree : Tree) (settings : Settings) (known : Option (List String)) :
    Attempt Report := do
  let start : Validation.Check := ⟨Report.empty, fun _ => [], []⟩
  let (_, check) ← (Validation.checkAll tree settings known).run start
  return check.report

end Playbook
