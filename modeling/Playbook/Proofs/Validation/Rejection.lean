import Playbook.Proofs.Manifest.Acceptance
import Playbook.Proofs.Schema.Violations

/-!
# Documents that are rejected

A document that does anything against its schema gives an error: a message of
the schema, or, if all it does is to fill two lists that exclude each other,
a conflict of these lists.
-/

namespace Playbook

variable {v : Value} {path : List Value}

namespace ManifestKind

theorem exists_schemaError {violation : Violation} (h : violation.Short) :
    ∃ result, schemaError? violation = .ok result := by
  have hmessage : ∃ message, violation.message = .ok message := by
    rw [Violation.message]
    cases hsubject : violation.subject with
    | none => exact ⟨_, rfl⟩
    | some x =>
        have hx := (h.subject x hsubject).isShowable
        exact ⟨x.quoted ++ " " ++ violation.text, by simp only [Value.shownQuoted, hx]; rfl⟩
  have hplace : ∃ place, pathText violation.path = .ok place := by
    obtain ⟨texts, htexts, -⟩ := Attempt.exists_mapM (P := fun _ _ => True)
      fun step hstep => ⟨_, (h.path step hstep).shown, trivial⟩
    exact ⟨_, by rw [pathText, htexts]; rfl⟩
  obtain ⟨message, hmessage⟩ := hmessage
  obtain ⟨place, hplace⟩ := hplace
  rw [schemaError?, hmessage, hplace]
  cases violation.byExclusion
  · exact ⟨some (place, message), rfl⟩
  · exact ⟨none, rfl⟩

theorem exists_schemaErrors (h : v.Short) (kind : ManifestKind) :
    ∃ errors, kind.schemaErrors v = .ok errors := by
  have hnone : ∀ step ∈ ([] : List Value), step.Short := by simp
  have hshort := Schema.short_violations h hnone kind.schema.schema
  have hfound := Attempt.filterMapM_eq_ok fun violation hviolation =>
    exists_schemaError (hshort violation hviolation)
  exact ⟨_, by rw [schemaErrors, hfound]; rfl⟩

end ManifestKind

namespace Validation

/-! ## Lists that exclude each other -/

/-- Two lists of a project that exclude each other are filled. -/
def Conflicted (v : Value) : Prop :=
  let aiTools := (field v "ai_tools").orElse (.mapping [])
  aiTools.isMapping = true ∧ ∃ conflicts, listConflicts aiTools = .ok conflicts ∧ conflicts ≠ []

theorem isGiven_of_filled {es : Entries} {name : String} (h : Schema.FilledIfList es name)
    (hlist : ∀ x, Entries.get? es name = some x → ManifestSchema.idList.Accepts x) :
    ((Entries.get? es name).getD .null).isGiven = true := by
  obtain ⟨x, hx, hfilled⟩ := h
  obtain ⟨items, hitems⟩ := (hlist x hx).of_reference.list List.mem_cons_self
  have hsome := hfilled items hitems
  rw [hx, Option.getD_some]
  cases x with
  | list own =>
      cases hitems
      simpa [Value.isGiven] using hsome
  | cycle name content => rfl
  | _ => cases hitems

/-- The only exclusions in the lists of a project are those of the pairs. -/
theorem exclusive_of_mem {violation : Violation}
    (h : violation ∈ Schema.violations v path ManifestSchema.aiTools)
    (hexcluded : violation.byExclusion = true) :
    ∃ category : Category, violation ∈ Schema.violations v path (ManifestSchema.exclusive
      (AiTools.whitelistField category) (AiTools.blacklistField category)) := by
  obtain ⟨keyword, hkeyword, h⟩ := Schema.of_mem_ruleViolations h
  have hplain := Schema.not_isPlainKeyword h hexcluded
  rcases List.mem_cons.1 hkeyword with rfl | hkeyword
  · cases hplain
  rcases List.mem_cons.1 hkeyword with rfl | hkeyword
  · cases hplain
  obtain rfl := List.mem_singleton.1 hkeyword
  rw [Schema.keywordViolations] at h
  obtain ⟨schema, hschema, h⟩ := Schema.of_mem_allViolations h
  simp only [List.mem_cons, List.not_mem_nil, or_false] at hschema
  rcases hschema with rfl | rfl | rfl | rfl
  · exact ⟨.agents, h⟩
  · exact ⟨.prompts, h⟩
  · exact ⟨.rulepacks, h⟩
  · exact ⟨.recipes, h⟩

/-- The only exclusions in a project are in its lists. -/
theorem aiTools_of_mem {violation : Violation}
    (h : violation ∈ Schema.violations v path ManifestSchema.project.schema)
    (hexcluded : violation.byExclusion = true) :
    ∃ es x, v.opened = .mapping es ∧ Entries.get? es "ai_tools" = some x ∧
      violation ∈ Schema.violations x (path ++ [.text "ai_tools"]) ManifestSchema.aiTools := by
  obtain ⟨keyword, hkeyword, h⟩ := Schema.of_mem_ruleViolations h
  have hplain := Schema.not_isPlainKeyword h hexcluded
  rcases List.mem_cons.1 hkeyword with rfl | hkeyword
  · cases hplain
  rcases List.mem_cons.1 hkeyword with rfl | hkeyword
  · cases hplain
  obtain rfl := List.mem_singleton.1 hkeyword
  rw [Schema.keywordViolations] at h
  split at h
  case h_2 => cases h
  case h_1 es hes =>
    obtain ⟨named, hnamed, x, hx, h⟩ := Schema.of_mem_fieldViolations h
    have hplain := Schema.not_isPlain h hexcluded
    simp only [List.mem_cons, List.not_mem_nil, or_false] at hnamed
    rcases hnamed with rfl | rfl | rfl | rfl | rfl | rfl | rfl
    case inr.inr.inr.inr.inr.inr => exact ⟨es, x, hes, hx, h⟩
    all_goals cases hplain

theorem accepts_idList {x : Value} (h : ManifestSchema.aiTools.Accepts x) {es : Entries}
    (hx : x.opened = .mapping es) (category : Category) :
    (∀ list, Entries.get? es (AiTools.whitelistField category) = some list →
      ManifestSchema.idList.Accepts list) ∧
        ∀ list, Entries.get? es (AiTools.blacklistField category) = some list →
          ManifestSchema.idList.Accepts list := by
  have hproperties := h.of_mem (List.mem_cons_of_mem _ List.mem_cons_self)
  cases category <;>
    exact ⟨fun _ hlist => hproperties.property hx rfl hlist,
      fun _ hlist => hproperties.property hx rfl hlist⟩

theorem isMapping_orElse {es : Entries} (h : v.opened = .mapping es) :
    (v.orElse (.mapping [])).isMapping = true := by
  rw [Value.orElse]
  split
  · exact Value.isMapping_of_opened h
  · rfl

/-- A project that only fills lists that exclude each other is reported for just that. -/
theorem conflicted_of_onlyExcluded
    (only : OnlyExcluded (ManifestKind.project.schema.schema.violations v []))
    (hsome : ManifestKind.project.schema.schema.violations v [] ≠ []) : Conflicted v := by
  have accepts : ManifestKind.project.schema.schema.Accepts v := ⟨[], only⟩
  obtain ⟨violation, hviolation⟩ := List.exists_mem_of_ne_nil _ hsome
  have hexcluded := only violation hviolation
  obtain ⟨es, x, hes, hx, hviolation⟩ := aiTools_of_mem hviolation hexcluded
  obtain ⟨category, hviolation⟩ := exclusive_of_mem hviolation hexcluded
  have haccepts : ManifestSchema.aiTools.Accepts x :=
    (accepts.of_mem (List.mem_cons_of_mem _ (List.mem_cons_of_mem _ List.mem_cons_self))).property
      hes rfl hx
  obtain ⟨own, hown⟩ := haccepts.mapping List.mem_cons_self
  obtain ⟨hwhitelist, hblacklist⟩ := accepts_idList haccepts hown category
  have hne : AiTools.whitelistField category ≠ AiTools.blacklistField category := by
    cases category <;> decide
  obtain ⟨hallowed, hrefused⟩ := Schema.filled_of_exclusive hne hown hviolation
  rw [Conflicted, field_of_mapping hes, hx, Option.getD_some]
  refine ⟨isMapping_orElse hown, _, Attempt.bind_eq_of_ok (Value.entries_orElse hown) _, ?_⟩
  refine List.ne_nil_of_mem (a := category) (List.mem_filter.2 ⟨?_, ?_⟩)
  · cases category <;> decide
  · rw [Bool.and_eq_true]
    exact ⟨isGiven_of_filled hallowed hwhitelist, isGiven_of_filled hrefused hblacklist⟩

/-- What a short document does against its schema is told by its messages or by its conflicts. -/
theorem schemaErrors_of_violations (short : v.Short) {kind : ManifestKind}
    (hsome : kind.schema.schema.violations v [] ≠ []) :
    ∃ errors, kind.schemaErrors v = .ok errors ∧
      (errors ≠ [] ∨ kind = .project ∧ Conflicted v) := by
  obtain ⟨errors, herrors⟩ := ManifestKind.exists_schemaErrors short kind
  refine ⟨errors, herrors, ?_⟩
  by_contra! hnone
  obtain ⟨rfl, hnone⟩ := hnone
  have only := ManifestKind.onlyExcluded_of_schemaErrors herrors
  by_cases hkind : kind = .project
  · subst hkind
    exact hnone rfl (conflicted_of_onlyExcluded only hsome)
  · obtain ⟨violation, hviolation⟩ := List.exists_mem_of_ne_nil _ hsome
    have hplain := Schema.not_isPlain hviolation (only violation hviolation)
    cases kind with
    | project => exact hkind rfl
    | _ => cases hplain

end Validation

end Playbook
