import Playbook.Proofs.Resolution.Admission
import Playbook.Proofs.Schema.Satisfaction
import Playbook.Proofs.Validation.Rejection
import Playbook.Proofs.Value.Populated

/-!
# Lists that exclude each other

That a project fills both lists of a category is said three times: by an
exclusion of its schema, by the list of its conflicts, and by the reports of a
resolver. The exclusion gives no error, but the conflicts make up for it.
-/

namespace Playbook

open Work
open Validation (listConflicts)

variable {v : Value} {es : Entries}

/-- Both fields of a category count as given. -/
def BothGiven (es : Entries) (category : Category) : Prop :=
  ((Entries.get? es (AiTools.whitelistField category)).getD .null).isGiven = true ∧
    ((Entries.get? es (AiTools.blacklistField category)).getD .null).isGiven = true

theorem exists_conflicts_of_opened (hv : v.opened = .mapping es) :
    ∃ conflicts, listConflicts v = .ok conflicts ∧
      ∀ category, category ∈ conflicts ↔ BothGiven es category := by
  have hes : v.entries = .ok es := by rw [Value.entries, hv]
  refine ⟨_, Attempt.bind_eq_of_ok hes _, fun category => ?_⟩
  have hall : category ∈ Category.all := by cases category <;> decide
  rw [List.mem_filter, and_iff_right hall, Bool.and_eq_true]
  exact Iff.rfl

/-! ## Exclusions of the schema -/

namespace Schema

theorem satisfied_minItems_one (populated : v.Populated) (hgiven : v.isGiven = true) :
    Satisfied v (.rules [.minItems 1]) := by
  refine ⟨fun items hitems => ?_, trivial⟩
  have hopened := populated.isGiven_opened hgiven
  rw [hitems] at hopened
  cases items with
  | nil => cases hopened
  | cons x items => simp

/-- Two fields that are both given exclude each other, whatever they hold. -/
theorem not_satisfied_exclusive (populated : v.Populated) (hv : v.opened = .mapping es)
    {category : Category} (hgiven : BothGiven es category) :
    ¬ Satisfied v (ManifestSchema.exclusive (AiTools.whitelistField category)
      (AiTools.blacklistField category)) := by
  have hfield {name : String} (hgiven : ((Entries.get? es name).getD .null).isGiven = true) :
      ∃ x, Entries.get? es name = some x ∧ Satisfied x (.rules [.minItems 1]) := by
    cases hx : Entries.get? es name with
    | none =>
        rw [hx] at hgiven
        cases hgiven
    | some x =>
        rw [hx] at hgiven
        exact ⟨x, rfl, satisfied_minItems_one (populated.get? hv hx) hgiven⟩
  obtain ⟨x, hx, hallowed⟩ := hfield hgiven.1
  obtain ⟨y, hy, hrefused⟩ := hfield hgiven.2
  intro hexclusive
  apply hexclusive.1
  refine ⟨fun own hown => ?_, fun own hown => ?_, trivial⟩
  · obtain rfl := Value.mapping.inj (hv.symm.trans hown)
    simp [hx, hy]
  · obtain rfl := Value.mapping.inj (hv.symm.trans hown)
    simp [FieldsSatisfied, hx, hy, hallowed, hrefused]

theorem not_bothGiven_of_satisfied (populated : v.Populated) (hv : v.opened = .mapping es)
    (h : Satisfied v ManifestSchema.aiTools) (category : Category) : ¬ BothGiven es category := by
  intro hgiven
  apply not_satisfied_exclusive populated hv hgiven
  obtain ⟨-, -, ⟨hagents, hprompts, hrulepacks, hrecipes, -⟩, -⟩ := h
  cases category with
  | agents => exact hagents
  | prompts => exact hprompts
  | rulepacks => exact hrulepacks
  | recipes => exact hrecipes

end Schema

namespace ManifestKind

/-- What satisfies its schema has no errors. -/
theorem schemaErrors_of_satisfied {kind : ManifestKind}
    (h : Schema.Satisfied v kind.schema.schema) : kind.schemaErrors v = .ok [] := by
  rw [schemaErrors, Schema.violations_eq_nil_iff.2 h, List.filterMapM_nil]
  exact congrArg Except.ok List.mergeSort_nil

end ManifestKind

namespace Validation

theorem listConflicts_of_satisfied (populated : v.Populated)
    (h : Schema.Satisfied v ManifestSchema.project.schema) :
    (v.fieldOr "ai_tools" (.mapping []) >>= listConflicts) = .ok [] := by
  obtain ⟨es, hv⟩ := h.accepts.mapping List.mem_cons_self
  rw [Attempt.bind_eq_of_ok (Value.fieldOr_eq hv _ _)]
  cases hx : Entries.get? es "ai_tools" with
  | none => rfl
  | some x =>
      obtain ⟨-, -, hfields, -⟩ := h
      obtain ⟨-, -, -, -, -, -, haiTools, -⟩ := hfields es hv
      have hsatisfied := haiTools x hx
      obtain ⟨own, hown⟩ := hsatisfied.accepts.mapping List.mem_cons_self
      obtain ⟨conflicts, hconflicts, hmem⟩ := exists_conflicts_of_opened hown
      rw [Option.getD_some, hconflicts, Except.ok.injEq, List.eq_nil_iff_forall_not_mem]
      intro category
      rw [hmem]
      exact Schema.not_bothGiven_of_satisfied (populated.get? hv hx) hown hsatisfied category

theorem not_conflicted_of_listConflicts
    (h : (v.fieldOr "ai_tools" (.mapping []) >>= listConflicts) = .ok []) : ¬ Conflicted v := by
  rintro ⟨-, conflicts, hconflicts, hsome⟩
  obtain ⟨x, hx, h⟩ := Attempt.of_bind_ok h
  have hnone : listConflicts (.mapping []) = .ok [] := rfl
  obtain ⟨es, hv, rfl⟩ := Value.of_fieldOr_ok hx
  rw [field_of_mapping hv] at hconflicts
  cases hfound : Entries.get? es "ai_tools" with
  | none =>
      rw [hfound] at hconflicts
      exact hsome (Except.ok.inj (hconflicts.symm.trans hnone))
  | some own =>
      rw [hfound, Option.getD_some] at h hconflicts
      rw [Value.orElse] at hconflicts
      split at hconflicts
      · exact hsome (Except.ok.inj (hconflicts.symm.trans h))
      · exact hsome (Except.ok.inj (hconflicts.symm.trans hnone))

/-- A project satisfies its whole schema if it has neither errors nor conflicts. -/
theorem satisfied_project_iff (populated : v.Populated) :
    Schema.Satisfied v ManifestSchema.project.schema ↔
      ManifestKind.project.schemaErrors v = .ok [] ∧
        (v.fieldOr "ai_tools" (.mapping []) >>= listConflicts) = .ok [] := by
  constructor
  · intro h
    exact ⟨ManifestKind.schemaErrors_of_satisfied h, listConflicts_of_satisfied populated h⟩
  · rintro ⟨herrors, hconflicts⟩
    rw [← Schema.violations_eq_nil_iff]
    by_contra hsome
    have only := ManifestKind.onlyExcluded_of_schemaErrors herrors
    exact not_conflicted_of_listConflicts hconflicts (conflicted_of_onlyExcluded only hsome)

end Validation

/-! ## Lists that were read -/

namespace AiTools

variable {tools : AiTools}

theorem exists_opened_of_ofValue (h : ofValue v = .ok tools) : ∃ es, v.opened = .mapping es := by
  obtain ⟨model, hmodel, -⟩ := Attempt.of_bind_ok h
  obtain ⟨es, hv, -⟩ := Value.of_fieldOr_ok hmodel
  exact ⟨es, hv⟩

theorem admissionOf_eq (h : ofValue v = .ok tools) (category : Category) :
    admissionOf v category = .ok (tools.listsFor category) := by
  iterate 2 obtain ⟨_, _, h⟩ := Attempt.of_bind_ok h
  obtain ⟨agents, hagents, h⟩ := Attempt.of_bind_ok h
  obtain ⟨prompts, hprompts, h⟩ := Attempt.of_bind_ok h
  obtain ⟨rulepacks, hrulepacks, h⟩ := Attempt.of_bind_ok h
  obtain ⟨recipes, hrecipes, h⟩ := Attempt.of_bind_ok h
  iterate 6 obtain ⟨_, _, h⟩ := Attempt.of_bind_ok h
  cases h
  cases category with
  | agents => exact hagents
  | prompts => exact hprompts
  | rulepacks => exact hrulepacks
  | recipes => exact hrecipes

/-- The lists of a category have entries if its fields are given. -/
theorem bothGiven_iff (populated : v.Populated) (hv : v.opened = .mapping es)
    (h : ofValue v = .ok tools) (category : Category) :
    BothGiven es category ↔ (tools.listsFor category).whitelist ≠ [] ∧
      (tools.listsFor category).blacklist ≠ [] := by
  obtain ⟨x, hx, h⟩ := Attempt.of_bind_ok (admissionOf_eq h category)
  obtain ⟨whitelist, hwhitelist, h⟩ := Attempt.of_bind_ok h
  obtain ⟨y, hy, h⟩ := Attempt.of_bind_ok h
  obtain ⟨blacklist, hblacklist, h⟩ := Attempt.of_bind_ok h
  rw [← Except.ok.inj h, (populated.field hx).texts_ne_nil_iff hwhitelist,
    (populated.field hy).texts_ne_nil_iff hblacklist, BothGiven]
  rw [Value.field_eq hv] at hx hy
  rw [Except.ok.inj hx, Except.ok.inj hy]

end AiTools

/-! ## Reports of a resolver -/

theorem Admission.inConflict_iff {lists : Admission} :
    lists.inConflict = true ↔ lists.whitelist ≠ [] ∧ lists.blacklist ≠ [] := by
  simp [inConflict]

namespace Admissions

variable {project : Project} {category : Category} {paths : List (String × String)}

theorem log_lists_of_canBeKey (hkey : project.id.canBeKey = true) :
    ((lists (some project) category).runFrom ⟨paths, []⟩).2.2 =
      if (project.aiTools.listsFor category).inConflict then
        [⟨.error, conflictMessage project.id category⟩]
      else [] := by
  have hreport : Reportable (some project) category := by
    rintro p ⟨⟩ -
    exact hkey
  rw [runFrom_eq, exec_lists_eq hreport]
  by_cases hconflict : (project.aiTools.listsFor category).inConflict <;>
    simp [conflict?, reports, isReported, hconflict]

theorem lists_eq_wrongType_iff (hkey : project.id.canBeKey = false) :
    ((lists (some project) category).runFrom ⟨paths, []⟩).1 = .error .wrongType ↔
      (project.aiTools.listsFor category).inConflict = true := by
  by_cases hconflict : (project.aiTools.listsFor category).inConflict
  · have hreport : ¬ Reportable (some project) category := by
      intro h
      cases hkey.symm.trans (h project rfl hconflict)
    rw [runFrom_eq, exec_lists_of_not_reportable hreport]
    exact iff_of_true rfl hconflict
  · have hreport : Reportable (some project) category := by
      rintro p ⟨⟩ h
      exact absurd h hconflict
    rw [runFrom_eq, exec_lists_eq hreport]
    exact iff_of_false nofun hconflict

end Admissions

/--
Leaving the exclusions of a schema to the conflicts loses no verdict. A project
satisfies its whole schema exactly if there are neither errors nor conflicts of
its lists, and the categories in conflict are those where both lists that were
read have entries. These are reported by a resolver, which fails for a project
whose id cannot be kept with the report. Values are populated in that what
holds itself has at least this member.
-/
theorem conflicts_stand_for_exclusions :
    (∀ document : Value, document.Populated →
      (Schema.Satisfied document ManifestSchema.project.schema ↔
        ManifestKind.project.schemaErrors document = .ok [] ∧
          (document.fieldOr "ai_tools" (.mapping []) >>= listConflicts) = .ok [])) ∧
    ∀ (v : Value) (tools : AiTools), v.Populated → AiTools.ofValue v = .ok tools →
      ∃ conflicts, listConflicts v = .ok conflicts ∧ ∀ category,
        (category ∈ conflicts ↔ (tools.listsFor category).whitelist ≠ [] ∧
          (tools.listsFor category).blacklist ≠ []) ∧
        ∀ (project : Project) (paths : List (String × String)), project.aiTools = tools →
          let run := (Admissions.lists (some project) category).runFrom ⟨paths, []⟩
          (project.id.canBeKey = true → run.2.2 =
            if category ∈ conflicts then
              [⟨.error, Admissions.conflictMessage project.id category⟩]
            else []) ∧
          (project.id.canBeKey = false → (run.1 = .error .wrongType ↔ category ∈ conflicts)) := by
  refine ⟨fun document => Validation.satisfied_project_iff, fun v tools populated h => ?_⟩
  obtain ⟨es, hv⟩ := AiTools.exists_opened_of_ofValue h
  obtain ⟨conflicts, hconflicts, hmem⟩ := exists_conflicts_of_opened hv
  have hfilled (category : Category) : category ∈ conflicts ↔
      (tools.listsFor category).inConflict = true := by
    rw [hmem, AiTools.bothGiven_iff populated hv h, Admission.inConflict_iff]
  refine ⟨conflicts, hconflicts, fun category => ⟨?_, ?_⟩⟩
  · rw [hfilled, Admission.inConflict_iff]
  · rintro project paths rfl
    refine ⟨fun hkey => ?_, fun hkey => ?_⟩
    · rw [Admissions.log_lists_of_canBeKey hkey]
      exact if_congr (hfilled category).symm rfl rfl
    · rw [Admissions.lists_eq_wrongType_iff hkey, hfilled]

/-- Lists of agents that let one in and keep another out. -/
def rivalLists : Value := .mapping
  [(.text "whitelist_agents", .list [.text "writer"]),
   (.text "blacklist_agents", .list [.text "critic"])]

/-- The project has no error, but a conflict, and a resolver reports it. -/
theorem conflicts_stand_for_exclusions_rival :
    let document : Value := .mapping [(.text "id", .text "shop"), (.text "ai_tools", rivalLists)]
    document.Populated ∧ ManifestKind.project.schemaErrors document = .ok [] ∧
      ¬ Schema.Satisfied document ManifestSchema.project.schema ∧
      ∃ tools, rivalLists.Populated ∧ AiTools.ofValue rivalLists = .ok tools ∧
        ((Admissions.lists (some { (default : Project) with id := .text "shop", aiTools := tools })
          .agents).runFrom ⟨[], []⟩).2.2 =
            [⟨.error, Admissions.conflictMessage (.text "shop") .agents⟩] := by
  intro document
  have populated : rivalLists.Populated := by
    simp [rivalLists, Value.Populated, Value.EntriesPopulated, Value.AllPopulated]
  have hdocument : document.Populated := ⟨trivial, populated, trivial⟩
  have herrors : ManifestKind.project.schemaErrors document = .ok [] := by
    with_unfolding_all rfl
  have hconflicts : (document.fieldOr "ai_tools" (.mapping []) >>= listConflicts) =
      .ok [.agents] := by with_unfolding_all rfl
  have hrivals : listConflicts rivalLists = .ok [.agents] := by with_unfolding_all rfl
  refine ⟨hdocument, herrors, fun h => ?_, ?_⟩
  · have hnone := ((conflicts_stand_for_exclusions.1 document hdocument).1 h).2
    cases hconflicts.symm.trans hnone
  · obtain ⟨tools, htools⟩ : ∃ tools, AiTools.ofValue rivalLists = .ok tools :=
      ⟨_, by with_unfolding_all rfl⟩
    obtain ⟨conflicts, hfound, hall⟩ :=
      conflicts_stand_for_exclusions.2 rivalLists tools populated htools
    obtain rfl := Except.ok.inj (hrivals.symm.trans hfound)
    refine ⟨tools, populated, htools, ?_⟩
    exact ((hall .agents).2 { (default : Project) with id := .text "shop", aiTools := tools } []
      rfl).1 rfl

end Playbook
