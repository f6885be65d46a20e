import Playbook.Schema

/-!
# Schemas of the manifests

One schema for each kind of manifest. In a project the whitelist and the
blacklist of a category exclude each other.
-/

namespace Playbook

/-- A schema with a title and with definitions that its parts refer to. -/
structure TitledSchema where
  title : String
  definitions : List (String × Schema)
  keywords : List Keyword

namespace TitledSchema

def schema (titled : TitledSchema) : Schema := .rules titled.keywords

def document (titled : TitledSchema) : Value :=
  .mapping ([(.text "$schema", .text "http://json-schema.org/draft-07/schema#"),
      (.text "title", .text titled.title)] ++
    (if titled.definitions.isEmpty then []
     else [(.text "definitions", .mapping (Schema.fieldEntries titled.definitions))]) ++
    Schema.ruleEntries titled.keywords)

end TitledSchema

namespace Schema

def text : Schema := .rules [.type [.string]]

def filledText : Schema := .rules [.type [.string], .minLength 1]

def truth : Schema := .rules [.type [.boolean]]

/-- Values that have a plain text of their own. -/
def scalar : Schema := .rules [.type [.string, .number, .boolean]]

def texts : Schema := .rules [.type [.array], .items text]

def filledTexts : Schema := .rules [.type [.array], .items filledText]

def object (fields : List (String × Schema)) : Schema :=
  .rules [.type [.object], .properties fields]

def objectWith (names : List String) (fields : List (String × Schema)) : Schema :=
  .rules [.type [.object], .required names, .properties fields]

def mappingTo (others : Schema) : Schema := .rules [.type [.object], .additional others]

end Schema

namespace ManifestSchema

open Schema

def agent : TitledSchema where
  title := "Agent"
  definitions := []
  keywords := [.type [.object], .required ["id", "purpose"], .properties [
    ("id", filledText),
    ("version", text),
    ("purpose", filledText),
    ("description", text),
    ("rulepacks", texts),
    ("prompt", object [("system", text), ("user_template", text)]),
    ("constraints", texts),
    ("defaults", object [
      ("model", text),
      ("temperature", .rules [.type [.number], .minimum 0, .maximum 2]),
      ("max_tokens", .rules [.type [.integer], .minimum 1])]),
    ("capabilities", texts),
    ("tools", texts)]]

def feature : TitledSchema where
  title := "Feature"
  definitions := []
  keywords := [.type [.object], .required ["id"], .properties [
    ("id", filledText),
    ("name", text),
    ("version", text),
    ("description", text),
    ("model", text),
    ("recipe", objectWith ["id"] [
      ("id", filledText),
      ("context", mappingTo scalar),
      ("tools", texts)])]]

def rulepack : TitledSchema where
  title := "Rulepack"
  definitions := []
  keywords := [.type [.object], .required ["id", "rules"], .properties [
    ("id", filledText),
    ("version", text),
    ("description", text),
    ("extends", filledTexts),
    ("rules", texts),
    ("tags", texts)]]

def prompt : TitledSchema where
  title := "Prompt"
  definitions := []
  keywords := [.type [.object], .required ["id", "description", "content"], .properties [
    ("id", filledText),
    ("version", text),
    ("description", text),
    ("content", filledText),
    ("model", text),
    ("tags", texts),
    ("variables", .rules [.type [.array], .items (objectWith ["name"] [
      ("name", filledText),
      ("required", truth),
      ("description", text),
      ("default", scalar)])])]]

/-! ## Recipes -/

def check : Schema :=
  objectWith ["type"] [
    ("type", .rules [.choices ["contains", "regex", "command", "user-approval"]]),
    ("value", text),
    ("pattern", text),
    ("cmd", text),
    ("prompt", text)]

def condition : Schema :=
  objectWith ["type"] [
    ("type", .rules [.choices
      ["always", "on-success", "on-failure", "user-decision", "file_exists"]]),
    ("check", check)]

def step : Schema :=
  objectWith ["id", "agent", "task"] [
    ("id", filledText),
    ("agent", filledText),
    ("task", filledText),
    ("model", text),
    ("outputDocument", filledText),
    ("includeDocuments", filledTexts),
    ("continueConversation", truth),
    ("waitForConfirmation", truth),
    ("condition", condition)]

def loop : Schema :=
  objectWith ["steps"] [
    ("steps", .rules [.type [.array], .minItems 1, .items text]),
    ("maxIterations", .rules [.type [.integer], .minimum 1]),
    ("condition", objectWith ["type"] [
      ("type", .rules [.choices ["command", "user-decision", "max-iterations"]]),
      ("cmd", text),
      ("prompt", text)])]

def recipe : TitledSchema where
  title := "Recipe"
  definitions := [("step", step)]
  keywords := [.type [.object], .required ["id", "steps"], .properties [
    ("id", filledText),
    ("version", text),
    ("description", text),
    ("tags", texts),
    ("tools", texts),
    ("model", text),
    ("variables", mappingTo scalar),
    ("steps", .rules [.type [.array], .minItems 1, .items (.reference "step" step)]),
    ("loop", loop),
    ("conversationStrategy", .rules [.choices ["separate", "continue"]]),
    ("toolOptions", mappingTo (.rules [.type [.object]]))]]

/-! ## Projects -/

def idList : Schema := .reference "idList" filledTexts

def stringList : Schema := .reference "stringList" texts

def techStackFields : Schema :=
  object [
    ("languages", stringList),
    ("frontend", stringList),
    ("backend", stringList),
    ("database", stringList),
    ("infrastructure", stringList),
    ("tools", stringList)]

def techStack : Schema := .reference "techStack" techStackFields

/-- Not both lists of a category with members. -/
def exclusive (whitelist blacklist : String) : Schema :=
  .rules [.excluded (.rules [
    .required [whitelist, blacklist],
    .properties [
      (whitelist, .rules [.minItems 1]),
      (blacklist, .rules [.minItems 1])]])]

def exclusiveAgents : Schema := exclusive "whitelist_agents" "blacklist_agents"

def exclusivePrompts : Schema := exclusive "whitelist_prompts" "blacklist_prompts"

def exclusiveRulepacks : Schema := exclusive "whitelist_rulepacks" "blacklist_rulepacks"

def exclusiveRecipes : Schema := exclusive "whitelist_recipes" "blacklist_recipes"

def aiTools : Schema :=
  .rules [.type [.object], .properties [
    ("model", text),
    ("whitelist_agents", idList),
    ("blacklist_agents", idList),
    ("whitelist_prompts", idList),
    ("blacklist_prompts", idList),
    ("whitelist_rulepacks", idList),
    ("blacklist_rulepacks", idList),
    ("whitelist_recipes", idList),
    ("blacklist_recipes", idList),
    ("preferred_agents", idList),
    ("preferred_rulepacks", idList),
    ("custom_rules", texts)],
    .all [
      .reference "exclusiveAgents" exclusiveAgents,
      .reference "exclusivePrompts" exclusivePrompts,
      .reference "exclusiveRulepacks" exclusiveRulepacks,
      .reference "exclusiveRecipes" exclusiveRecipes]]

def project : TitledSchema where
  title := "Project"
  definitions := [
    ("idList", filledTexts),
    ("stringList", texts),
    ("techStack", techStackFields),
    ("exclusiveAgents", exclusiveAgents),
    ("exclusivePrompts", exclusivePrompts),
    ("exclusiveRulepacks", exclusiveRulepacks),
    ("exclusiveRecipes", exclusiveRecipes)]
  keywords := [.type [.object], .required ["id"], .properties [
    ("id", filledText),
    ("name", text),
    ("version", text),
    ("description", text),
    ("tech_stack", techStack),
    ("tech_stacks", mappingTo techStack),
    ("ai_tools", aiTools)]]

end ManifestSchema

/-- The kinds of manifests. -/
inductive ManifestKind where
  | rulepack
  | agent
  | prompt
  | recipe
  | project
  | feature
deriving DecidableEq, Repr, Inhabited

namespace ManifestKind

def all : List ManifestKind := [.rulepack, .agent, .prompt, .recipe, .project, .feature]

def name : ManifestKind → String
  | .rulepack => "rulepack"
  | .agent => "agent"
  | .prompt => "prompt"
  | .recipe => "recipe"
  | .project => "project"
  | .feature => "feature"

def schema : ManifestKind → TitledSchema
  | .rulepack => ManifestSchema.rulepack
  | .agent => ManifestSchema.agent
  | .prompt => ManifestSchema.prompt
  | .recipe => ManifestSchema.recipe
  | .project => ManifestSchema.project
  | .feature => ManifestSchema.feature

def ofName (name : String) : Attempt ManifestKind :=
  match all.find? fun kind => kind.name == name with
  | some kind => .ok kind
  | none => .error (.noSchema name)

def pathText (path : List Value) : Attempt String := do
  let joined := Text.join "." (← path.mapM Value.shown)
  return if joined.isEmpty then "root" else joined

/-- The path and message of a violation, unless it is one of the exclusions. -/
def schemaError? (violation : Violation) : Attempt (Option (String × String)) := do
  let message ← violation.message
  if violation.byExclusion then return none
  return some (← pathText violation.path, message)

/--
Field paths and messages of a document's violations, in order of both. The
exclusion of list pairs is left to the check of list conflicts.
-/
def schemaErrors (kind : ManifestKind) (document : Value) : Attempt (List (String × String)) := do
  let found ← (kind.schema.schema.violations document []).filterMapM schemaError?
  return found.mergeSort fun a b =>
    decide (a.1 < b.1) || (a.1 == b.1 && !decide (b.2 < a.2))

end ManifestKind

end Playbook
