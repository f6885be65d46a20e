import Playbook.Proofs.Tree.Documents
import Playbook.Proofs.Validation.Compilation
import Playbook.Proofs.Validation.Features

/-!
# Soundness of the check

From a repository without errors every listed manifest is loaded, rules are
resolved, recipes are compiled and features find their recipes, all without a
warning that the check should have given. The check reads the documents
themselves and the store what its readers make of them.
-/

namespace Playbook

open Work
open Validation (field)

namespace Store

/-- What is promised of the store of a repository without errors, `strict` if there are no warnings. -/
structure Coherent (strict : Prop) (store : Store) : Prop where
  /-- Every listed file is loaded, and no file is passed over. -/
  loads : ∀ kind : Kind, ∃ items, kind.items.runFrom store = (.ok items, kind.keep items store, []) ∧
    kind.Files store.tree store.settings (items.map (·.2.1))
  /-- No rulepack is missing, and where the check is strict no cycle is met. -/
  rules : ∀ agents rest, agentItems.runFrom store = (.ok agents, rest) → ∀ item ∈ agents,
    ∀ admissions project languages, ∀ entry ∈ ((resolvingWith admissions
      (Resolver.agentRules item.2.2 project languages)).runFrom store).2.2,
        RulesReport strict project entry
  /-- No agent is missing and no step of a loop is unknown. -/
  scripts : ∀ recipes rest, recipeItems.runFrom store = (.ok recipes, rest) → ∀ item ∈ recipes,
    ∀ (setting : Setting) (tool : Value) (time : String) (admissions : Admissions),
      setting.project = none → ∀ entry ∈ ((setting.compile item.2.2 tool time).runFrom
        ⟨⟨store.agentShelf, []⟩, admissions⟩).2.2,
          ∃ step, entry = Partition.gapWarning item.2.2.id step
  /-- No feature of a project with a plain name misses its recipe. -/
  features : ∀ (order : Order) (wanted : List Value),
    (∀ name, order.project.id = .text name → Path.PlainName name) →
      ∀ features rest, (loadFeatures order.project.id).runFrom store = (.ok features, rest) →
        ∀ feature ∈ features, ∀ recipe,
          Order.missingRecipe feature.id recipe ∉ ((order.features wanted).runFrom store).2.2

variable {store : Store} {known : Option (List String)} {report : Report}

end Store

/-! ## Small repositories -/

namespace Tree

variable {P : Value → Prop}

mutual

/-- Every file holds a value with `P`, kept as it is. -/
def Holds (P : Value → Prop) : Tree → Prop
  | .file f => ∃ v, f.content = .document v ∧ P v
  | .directory entries => AllHold P entries

def AllHold (P : Value → Prop) : List (String × Tree) → Prop
  | [] => True
  | (_, child) :: rest => Holds P child ∧ AllHold P rest

end

theorem AllHold.of_mem {entries : List (String × Tree)} (h : AllHold P entries)
    {entry : String × Tree} (hentry : entry ∈ entries) : entry.2.Holds P := by
  induction entries with
  | nil => cases hentry
  | cons first entries ih =>
      rcases List.mem_cons.1 hentry with rfl | hentry
      · exact h.1
      · exact ih h.2 hentry

theorem Holds.of_document {tree : Tree} (h : tree.Holds P) {path : Path} {v : Value}
    (hdocument : Manifests.document tree path = .ok (.ok v)) : P v := by
  obtain ⟨f, hlook, hcontent⟩ :=
    exists_file_of_document (Manifests.document_of_document hdocument)
  obtain ⟨value, hvalue, hP⟩ : (Tree.file f).Holds P :=
    follow_induction (fun _ hall _ hentry => AllHold.of_mem hall hentry) (by simp) h
      (look_eq_ok_iff.1 hlook).2
  rw [hvalue] at hcontent
  cases hcontent
  exact hP

end Tree

namespace Store

def shopSettings : Settings where
  root := ⟨.root, []⟩
  directories := Settings.defaultDirectories
  outputDir := "out"
  docsDir := "docs"
  logsDir := "logs"
  projectSources := [.text "local"]
  defaultTools := [.text "cursor"]
  maxWorkers := 1
  sources := []

def ofFields (fields : List (String × Value)) : Tree :=
  .file ⟨.document (.mapping (fields.map fun field => (.text field.1, field.2))), false⟩

/-- A rulepack, an agent, a recipe, and a project with a feature. -/
def shopTree : Tree := .directory
  [("01_rulepacks", .directory [("base.yml", ofFields
      [("id", .text "base"), ("rules", .list [.text "Be brief."])])]),
   ("04_agents", .directory [("writer.yml", ofFields
      [("id", .text "writer"), ("purpose", .text "To write."),
       ("rulepacks", .list [.text "base"])])]),
   ("05_recipes", .directory [("draft.yml", ofFields
      [("id", .text "draft"), ("steps", .list [.mapping
        [(.text "id", .text "write"), (.text "agent", .text "writer"),
         (.text "task", .text "Write.")]])])]),
   ("06_projects", .directory [("local", .directory [("shop", .directory
      [("project.yml", ofFields [("id", .text "shop")]),
       ("features", .directory [("login", .directory [("feature.yml", ofFields
          [("recipe", .mapping [(.text "id", .text "draft")])])])])])])])]

theorem shopTree_holds : shopTree.Holds fun v =>
    v.Proper ∧ (field v "variables").isNull = true ∧ (field v "toolOptions").isNull = true := by
  refine ⟨⟨⟨_, rfl, ?_⟩, trivial⟩, ⟨⟨_, rfl, ?_⟩, trivial⟩, ⟨⟨_, rfl, ?_⟩, trivial⟩,
    ⟨⟨⟨⟨_, rfl, ?_⟩, ⟨⟨⟨_, rfl, ?_⟩, trivial⟩, trivial⟩, trivial⟩, trivial⟩, trivial⟩, trivial⟩
  all_goals
    exact ⟨by simp [Value.Proper, Value.ProperEntries, Value.ProperItems], by decide +kernel,
      by decide +kernel⟩

/-- A document without converted fields has no number that is too long. -/
theorem Kind.showable_of_absent {v : Value} (hvariables : (field v "variables").isNull = true)
    (hoptions : (field v "toolOptions").isNull = true) (kind : Kind) : kind.Showable v := by
  have hnull {x : Value} (h : x.isNull = true) : x = .null := by
    cases x <;> first | rfl | cases h
  replace hvariables := hnull hvariables
  replace hoptions := hnull hoptions
  cases kind with
  | rulepacks | agents => trivial
  | prompts =>
      intro items hitems
      rw [Validation.membersOf, hvariables] at hitems
      cases hitems
      intro x hx
      cases hx
  | recipes =>
      refine ⟨fun es hes => ?_, fun es hes => ?_⟩
      · rw [hvariables] at hes
        cases hes
      · rw [hoptions] at hes
        cases hes

def passes (tree : Tree) : Bool :=
  match validate tree shopSettings (some (Registry.builtIn.map (·.1))) with
  | .ok report => report.errors.isEmpty && report.warnings.isEmpty
  | .error _ => false

theorem exists_report {tree : Tree} (h : passes tree = true) :
    ∃ report, validate tree shopSettings (some (Registry.builtIn.map (·.1))) = .ok report ∧
      report.errors = [] ∧ report.warnings = [] := by
  rw [passes] at h
  split at h
  · rename_i report hreport
    rw [Bool.and_eq_true, List.isEmpty_iff, List.isEmpty_iff] at h
    exact ⟨report, hreport, h⟩
  · cases h

/-- A recipe with a number of 4301 digits. -/
def longTree : Tree := .directory
  [("04_agents", .directory [("writer.yml", ofFields
      [("id", .text "writer"), ("purpose", .text "To write.")])]),
   ("05_recipes", .directory [("draft.yml", ofFields
      [("id", .text "draft"),
       ("variables", .mapping [(.text "width", .int (Int.ofNat (10 ^ 4300)))]),
       ("steps", .list [.mapping
        [(.text "id", .text "write"), (.text "agent", .text "writer"),
         (.text "task", .text "Write.")]])])])]

/-- A project in a directory of a directory of its source. -/
def nestedTree : Tree := .directory
  [("06_projects", .directory [("local", .directory [("group", .directory [("shop", .directory
      [("project.yml", ofFields [("id", .text "group/shop")]),
       ("features", .directory [("login", .directory [("feature.yml", ofFields
          [("recipe", .mapping [(.text "id", .text "draft")])])])])])])])])]

end Store

end Playbook
