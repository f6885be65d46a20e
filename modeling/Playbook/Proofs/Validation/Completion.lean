import Playbook.Proofs.Recipe.Completion
import Playbook.Proofs.Store.Items
import Playbook.Proofs.Validation.Soundness

/-!
# Recipes of a repository that was checked

A recipe from a repository without errors is compiled unless its options, of
which the check knows nothing, are not what the tool expects, or the bound of
its loop has too many digits. In these cases the fault ends all generation.
-/

namespace Playbook

open Work
open Validation (Checked Collected)

/-! ## What was checked has texts -/

theorem Recipe.Reads.worded {v : Value} {recipe : Recipe} (reads : Recipe.Reads v recipe) :
    recipe.Worded := by
  obtain ⟨id, -, -, hid⟩ := reads.id
  obtain ⟨members, -, hsteps⟩ := reads.steps
  refine ⟨⟨id, hid⟩, reads.description, reads.filled, fun step hstep => ?_⟩
  obtain ⟨x, -, hread⟩ := exists_left_of_mem hsteps hstep
  obtain ⟨name, -, hname⟩ := hread.id
  obtain ⟨agent, -, -, hagent⟩ := hread.agent
  exact ⟨⟨name, hname⟩, ⟨agent, hagent⟩, hread.task⟩

/-- A setting with the usual tools for a project and a feature of a repository, or for none. -/
structure Setting.FromStore (store : Store) (setting : Setting) : Prop where
  registry : setting.registry = Registry.builtIn
  project : ∀ project ∈ setting.project, ∃ name rest, Path.PlainName name ∧
    (Store.loadProject (.text name)).runFrom store = (.ok project, rest)
  feature : ∀ feature ∈ setting.feature, ∃ name features rest, Path.PlainName name ∧
    (Store.loadFeatures (.text name)).runFrom store = (.ok features, rest) ∧ feature ∈ features

section

variable {strict : Prop} {store : Store} {c : Validation.Check}

theorem Setting.FromStore.worded {setting : Setting} (h : setting.FromStore store)
    (collected : Collected store.tree store.settings c) (checked : Checked strict c)
    (proper : store.tree.ProperDocuments) : setting.Worded := by
  constructor
  case project =>
    intro project hproject
    obtain ⟨name, rest, plain, hload⟩ := h.project project hproject
    obtain ⟨id, hid, -⟩ := Store.exists_projectId collected proper plain hload
    exact ⟨id, hid⟩
  case feature =>
    intro feature hfeature
    obtain ⟨name, features, rest, plain, hload, hmem⟩ := h.feature feature hfeature
    exact Store.exists_featureId collected checked proper plain hload hmem

theorem instructed_of_items (collected : Collected store.tree store.settings c)
    (faithful : store.Faithful) {agents : Collection.Items Agent} {rest : Store × Log}
    (h : Store.agentItems.runFrom store = (.ok agents, rest)) :
    Instructed (Collection.byId agents) := by
  intro entry hentry
  obtain ⟨item, hitem, rfl⟩ := List.mem_map.1 hentry
  obtain ⟨v, hreads⟩ := Store.exists_reads .agents collected faithful h hitem
  have hreads : Agent.Reads v item.2.2 := hreads
  exact hreads.system

end

/-! ## Compiling what was checked -/

namespace Store

/-- A recipe with an option that the check lets pass and that one of the tools cannot go through. -/
def optionTree : Tree := .directory
  [("04_agents", .directory [("writer.yml", ofFields
      [("id", .text "writer"), ("purpose", .text "To write.")])]),
   ("05_recipes", .directory [("draft.yml", ofFields
      [("id", .text "draft"), ("steps", .list [.mapping
        [(.text "id", .text "write"), (.text "agent", .text "writer"),
         (.text "task", .text "Write.")]]),
       ("toolOptions", .mapping
        [(.text "claude-code", .mapping [(.text "allowedTools", .bool true)])])])]),
   ("06_projects", .directory [("local", .directory [("shop", .directory
      [("project.yml", ofFields [("id", .text "shop")]),
       ("features", .directory [("login", .directory [("feature.yml", ofFields
          [("recipe", .mapping [(.text "id", .text "draft")])])])])])])])]

def optionRecipe : Recipe where
  id := .text "draft"
  steps := [{
    id := .text "write"
    agent := .text "writer"
    task := .text "Write."
    model := none
    outputDocument := none
    includeDocuments := []
    continueConversation := .null
    waitForConfirmation := false
    condition := none }]
  description := .text ""
  version := ""
  tags := []
  tools := []
  defaults := []
  model := none
  loop := none
  conversation := .separate
  toolOptions := [("claude-code", [(.text "allowedTools", .bool true)])]

def optionAgent : Agent where
  id := .text "writer"
  purpose := .text "To write."
  version := ""
  description := .text ""
  rulepacks := []
  prompt := ⟨.text "", .text ""⟩
  constraints := []
  defaults := ⟨none, .null, .null⟩
  capabilities := []
  tools := []

def optionProject : Project where
  id := .text "shop"
  name := .text ""
  version := ""
  description := .text ""
  aiTools := ⟨none, ⟨[], []⟩, ⟨[], []⟩, ⟨[], []⟩, ⟨[], []⟩, [], [], []⟩
  techStack := ⟨[], [], [], [], [], []⟩
  techStacks := []
  sourceDir := "/06_projects/local/shop"

def optionFeature : Feature :=
  ⟨.text "login", .text "", "", .text "", none, some ⟨.text "draft", [], []⟩⟩

def optionSetting : Setting :=
  ⟨some optionProject, some optionFeature, defaultDocsDir, defaultLogsDir, Registry.builtIn⟩

theorem optionTree_holds : optionTree.Holds Value.Proper := by
  refine ⟨⟨⟨_, rfl, ?_⟩, trivial⟩, ⟨⟨_, rfl, ?_⟩, trivial⟩,
    ⟨⟨⟨⟨_, rfl, ?_⟩, ⟨⟨⟨_, rfl, ?_⟩, trivial⟩, trivial⟩, trivial⟩, trivial⟩, trivial⟩, trivial⟩
  all_goals simp [Value.Proper, Value.ProperEntries, Value.ProperItems]

theorem optionSetting_fromStore : optionSetting.FromStore (ofSettings optionTree shopSettings) := by
  have plain : Path.PlainName "shop" := by unfold Path.PlainName; decide
  refine ⟨rfl, ?_, ?_⟩
  · rintro _ ⟨rfl⟩
    exact ⟨"shop", _, plain, Prod.ext (by with_unfolding_all rfl) rfl⟩
  · rintro _ ⟨rfl⟩
    exact ⟨"shop", [optionFeature], _, plain, Prod.ext (by with_unfolding_all rfl) rfl,
      List.mem_cons_self⟩

end Store

end Playbook
