import Playbook.Proofs.Validation.Collection
import Playbook.Proofs.Validation.Comparison
import Playbook.Proofs.Validation.Listing

/-!
# Gathering manifests

What is known of a check once some listed manifests have been gone through:
which documents are registered, which recipes are referred to, and that every
file that was rejected has an error, or will have one for its lists.
-/

namespace Playbook.Validation

variable {kind : ManifestKind} {path : Path} {v : Value} {c : Check}

/-! ## One document -/

/-- The documents with one more, if it has an id and no other has the same. -/
def withNew (documents : Documents) (id : String) (document : Document) : Documents :=
  if id ≠ "" ∧ documents.lookup id = none then documents ++ [(id, document)] else documents

/-- What one document changes in a check. -/
structure Entered (kind : ManifestKind) (path : Path) (v : Value) (registered : Bool)
    (c c' : Check) : Prop where
  errors : c.report.errors ⊆ c'.report.errors
  references : c'.references = c.references
  documents : ∃ id, idText v = .ok id ∧ ∀ k, c'.documents k =
    if k = kind ∧ registered = true then withNew (c.documents k) id ⟨path, v⟩ else c.documents k
  rejected : kind.schema.schema.violations v [] ≠ [] → Reported path c' ∨
    kind = .project ∧ Conflicted v ∧ ∃ id, (id, ⟨path, v⟩) ∈ c'.documents .project

theorem exists_idText (short : v.Short) (mapping : v.isMapping = true) :
    ∃ id, idText v = .ok id := by
  obtain ⟨es, hes⟩ := exists_opened mapping
  have hid : ((Entries.get? es "id").getD (.text "")).Short := by
    cases hx : Entries.get? es "id" with
    | none => trivial
    | some x => exact Value.hereditary_short.get? short hes hx
  exact ⟨_, by rw [idText, Value.fieldOr_eq hes]; exact hid.shown⟩

theorem settles_checkSchema (location : String) (short : v.Short) (c : Check) :
    Settles c (checkSchema kind location path v) True fun _ c' => Later c c' ∧
      ∃ errors, kind.schemaErrors v = .ok errors ∧ (errors ≠ [] → Reported path c') := by
  obtain ⟨errors, herrors⟩ := ManifestKind.exists_schemaErrors short kind
  refine Settles.attempt herrors
    ((settles_reports (fun _ _ => settles_addError _ _ _ _ _) c).imp ?_)
  rintro _ c' ⟨hlater, hreported⟩
  exact ⟨hlater, errors, herrors, hreported⟩

theorem settles_checkForms (id location : String) (short : v.Short) (c : Check) :
    Settles c (checkForms id location path v) True fun _ c' => Later c c' := by
  have hversion (c : Check) : Settles c (do
      let version := field v "version"
      if !version.isNull then
        let shown ← (version.shown : Attempt String)
        if !isVersion shown then
          addError .versionFormat location ("version '" ++ shown ++ "' is not MAJOR.MINOR.PATCH")
            "Use a semantic version such as 1.0.0" path) True fun _ c' => Later c c' :=
    (Settles.onlyIf fun _ => Settles.attempt (short.field "version").shown
      (Settles.onlyIf fun _ => settles_error _ _ _ _ _)).iff (by simp)
  unfold checkForms
  refine Settles.either (fun _ => ?_) fun _ => hversion c
  exact (settles_error _ _ _ _ _).andThen_later fun _ c' => hversion c'

theorem settles_register (location : String) {id : String} (hid : id ≠ "") (c : Check) :
    Settles c (register kind id location path v) True fun _ c' =>
      c.report.errors ⊆ c'.report.errors ∧ c'.references = c.references ∧
        (∀ k, c'.documents k = if k = kind then withNew (c.documents k) id ⟨path, v⟩
          else c.documents k) ∧ (Reported path c' ∨ (id, ⟨path, v⟩) ∈ c'.documents kind) := by
  unfold register
  refine Settles.documentsOf ?_
  cases hlookup : (c.documents kind).lookup id with
  | some existing =>
      refine (settles_addError _ _ _ _ _).imp ?_
      rintro _ c' ⟨hlater, hreported⟩
      refine ⟨hlater.errors, hlater.keeps.2, fun k => ?_, .inl hreported⟩
      rw [hlater.keeps.1]
      split
      · rename_i hk
        rw [hk, withNew, if_neg]
        simp [hlookup]
      · rfl
  | none =>
      refine ⟨fun _ => ⟨(), _, rfl, List.Subset.refl _, rfl, fun k => ?_, .inr ?_⟩,
        fun h => absurd trivial h⟩
      · dsimp only
        split
        · rename_i hk
          rw [hk, withNew, if_pos ⟨hid, hlookup⟩]
        · rfl
      · dsimp only
        rw [if_pos rfl]
        exact List.mem_append_right _ (List.mem_singleton_self _)

/-- Short documents are gone through without a fault. -/
theorem settles_checkDocument (short : v.Short) (proper : v.Proper) (mapping : v.isMapping = true)
    {registered : Bool} (hregistered : kind = .project → registered = true) (c : Check) :
    Settles c (checkDocument kind path v registered) True fun _ c' =>
      Entered kind path v registered c c' := by
  obtain ⟨id, hid⟩ := exists_idText short mapping
  -- a conflict alone is left to the comparison of projects, and so has to be registered
  have hconflict {errors : List (String × String)} (herrors : kind.schemaErrors v = .ok errors)
      (hsome : kind.schema.schema.violations v [] ≠ []) (hnone : errors = []) :
      kind = .project ∧ Conflicted v ∧ id ≠ "" := by
    subst hnone
    obtain ⟨own, hown, hproject⟩ := schemaErrors_of_violations short hsome
    obtain rfl : [] = own := Except.ok.inj (herrors.symm.trans hown)
    obtain ⟨hproject, hconflicted⟩ := hproject.resolve_left (by simp)
    obtain ⟨text, hfilled, htext⟩ :=
      ManifestKind.exists_id proper (ManifestKind.accepts_of_schemaErrors herrors)
    obtain rfl : text = id := Except.ok.inj ((idText_of_field htext).symm.trans hid)
    exact ⟨hproject, hconflicted, hfilled⟩
  unfold checkDocument
  refine settles_countChecked.andThen fun _ c₁ hcounted => Settles.attempt hid
    ((settles_checkSchema _ short c₁).andThen fun _ c₂ hschema =>
      (settles_checkForms id _ short c₂).andThen fun _ c₃ hforms => ?_)
  obtain ⟨hlater, errors, herrors, hreported⟩ := hschema
  have hstart : Later c c₃ := (hcounted.trans hlater).trans hforms
  split
  · rename_i hnew
    have hnew : id ≠ "" ∧ registered = true := by simpa [String.isEmpty_iff] using hnew
    refine (settles_register _ hnew.1 c₃).imp ?_
    rintro _ c' ⟨hmore, hreferences, hdocuments, hpresent⟩
    refine ⟨List.Subset.trans hstart.errors hmore, hreferences.trans hstart.keeps.2,
      ⟨id, hid, fun k => ?_⟩, fun hsome => ?_⟩
    · rw [hdocuments k, hstart.keeps.1]
      simp [hnew.2]
    · by_cases hnone : errors = []
      · obtain ⟨rfl, hconflicted, -⟩ := hconflict herrors hsome hnone
        rcases hpresent with hreported | hpresent
        · exact .inl hreported
        · exact .inr ⟨rfl, hconflicted, id, hpresent⟩
      · exact .inl (((hreported hnone).of_subset hforms.errors).of_subset hmore)
  · rename_i hold
    have hold : registered = true → id = "" := by
      intro hyes
      by_contra hne
      exact hold (by simpa [String.isEmpty_iff, hyes] using hne)
    refine (Settles.pure ()).imp ?_
    rintro _ _ ⟨-, rfl⟩
    refine ⟨hstart.errors, hstart.keeps.2, ⟨id, hid, fun k => ?_⟩, fun hsome => ?_⟩
    · rw [hstart.keeps.1]
      split
      · rename_i hk
        rw [withNew, if_neg]
        simp [hold hk.2]
      · rfl
    · by_cases hnone : errors = []
      · obtain ⟨hproject, -, hfilled⟩ := hconflict herrors hsome hnone
        exact absurd (hold (hregistered hproject)) hfilled
      · exact .inl ((hreported hnone).of_subset hforms.errors)

/-! ## One listed file -/

namespace ListedFile

/-- The recipe of a feature. -/
def recipe? (listing : ListedFile) : Option Value :=
  match listing.found with
  | .ok v =>
      if listing.kind = .feature ∧ (field v "recipe").isMapping = true then
        some (field v "recipe")
      else none
  | .error _ => none

/-- The documents of a kind after a listed file; features are not registered. -/
def register (kind : ManifestKind) (documents : Documents) (listing : ListedFile) : Documents :=
  match listing.found with
  | .ok v =>
      if listing.kind = kind ∧ kind ≠ .feature then
        match idText (listing.checked v) with
        | .ok id => withNew documents id ⟨listing.path, listing.checked v⟩
        | .error _ => documents
      else documents
  | .error _ => documents

/-- A file without a mapping, or with one that its schema does not accept. -/
def Rejected (listing : ListedFile) : Prop :=
  match listing.found with
  | .ok v => listing.kind.schema.schema.violations (listing.checked v) [] ≠ []
  | .error _ => True

instance : DecidablePred Rejected := fun listing =>
  match listing with
  | ⟨kind, owner, path, .ok v⟩ => inferInstanceAs (Decidable
      (kind.schema.schema.violations ((ListedFile.mk kind owner path (.ok v)).checked v) [] ≠ []))
  | ⟨_, _, _, .error _⟩ => inferInstanceAs (Decidable True)

/-- A file with a mapping has a proper and short one. -/
def Regular (listing : ListedFile) : Prop :=
  ∀ v, listing.found = .ok v → v.isMapping = true ∧ v.Proper ∧ v.Short

/-- There is an error for the file, or its project is registered for a conflict of lists. -/
def Noticed (listing : ListedFile) (c : Check) : Prop :=
  Reported listing.path c ∨
    ∃ entry ∈ c.documents .project, entry.2.path = listing.path ∧ Conflicted entry.2.value

/-- What one listed file changes in a check. -/
structure Taken (listing : ListedFile) (c c' : Check) : Prop where
  errors : c.report.errors ⊆ c'.report.errors
  documents : ∀ kind, c'.documents kind = listing.register kind (c.documents kind)
  references : c'.references.map (·.recipe) =
    c.references.map (·.recipe) ++ listing.recipe?.toList.map (field · "id")
  noticed : listing.Rejected → listing.Noticed c'

end ListedFile

theorem short_completed (short : v.Short) (id : String) : (completed id v).Short := by
  rw [completed]
  split
  · rename_i es hes
    split
    · exact short
    · have hopened := short.opened
      rw [hes] at hopened
      exact Value.EntriesShort.append hopened ⟨trivial, trivial, trivial⟩
  · exact short

theorem isMapping_completed (mapping : v.isMapping = true) (id : String) :
    (completed id v).isMapping = true := by
  rw [completed]
  split
  · split
    · exact mapping
    · rfl
  · exact mapping

theorem settles_checkFeature (known : Option (List String)) (project : String)
    (short : v.Short) (proper : v.Proper) (mapping : v.isMapping = true) (c : Check) :
    Settles c (checkFeature known project path v)
      ((field v "recipe").isMapping = true → ToolsKeyed known (field (field v "recipe") "tools"))
      fun _ c' => ListedFile.Taken ⟨.feature, project, path, .ok v⟩ c c' := by
  have hshort := short_completed short path.parent.name
  have hmapping := isMapping_completed mapping path.parent.name
  obtain ⟨id, hid⟩ := exists_idText hshort hmapping
  have hnote (location : String) (c : Check) : Settles c (do
      let recipe := field v "recipe"
      if recipe.isMapping then
        checkTools known location (field recipe "tools") path
        modify fun c => { c with
          references := c.references ++ [⟨location, field recipe "id", path⟩] })
      ((field v "recipe").isMapping = true → ToolsKeyed known (field (field v "recipe") "tools"))
      fun _ c' => c.report.errors ⊆ c'.report.errors ∧ c'.documents = c.documents ∧
        c'.references.map (·.recipe) = c.references.map (·.recipe) ++
          (ListedFile.recipe? ⟨.feature, project, path, .ok v⟩).toList.map (field · "id") := by
    refine (Settles.ite (fun hrecipe => (settles_checkTools known location path
      ((short.field "recipe").field "tools") c).bind (S := True) fun _ c₁ hlater => ?_)
        fun hno => (Settles.pure ()).imp ?_).iff (by simp)
    · refine ⟨fun _ => ⟨(), _, rfl, hlater.errors, hlater.keeps.1, ?_⟩, fun h => absurd trivial h⟩
      dsimp only
      rw [hlater.keeps.2, ListedFile.recipe?]
      simp [hrecipe]
    · rintro _ _ ⟨-, rfl⟩
      refine ⟨List.Subset.refl _, rfl, ?_⟩
      rw [ListedFile.recipe?]
      simp [hno]
  unfold checkFeature
  refine (settles_checkDocument hshort (proper_completed proper) hmapping (by simp) c).andThen
    fun _ c₁ hentered => Settles.attempt hid ?_
  have hdone {c₂ c' : Check} (hlater : Later c₁ c₂) (hnoted : c₂.report.errors ⊆ c'.report.errors ∧
      c'.documents = c₂.documents ∧ c'.references.map (·.recipe) = c₂.references.map (·.recipe) ++
        (ListedFile.recipe? ⟨.feature, project, path, .ok v⟩).toList.map (field · "id")) :
      ListedFile.Taken ⟨.feature, project, path, .ok v⟩ c c' := by
    obtain ⟨herrors, hdocuments, hreferences⟩ := hnoted
    refine ⟨List.Subset.trans (List.Subset.trans hentered.errors hlater.errors) herrors,
      fun kind => ?_, ?_, fun hrejected => .inl ?_⟩
    · obtain ⟨_, -, hkept⟩ := hentered.documents
      rw [hdocuments, hlater.keeps.1, hkept kind, if_neg (by simp), ListedFile.register]
      exact (if_neg fun h => h.2 h.1.symm).symm
    · rw [hreferences, hlater.keeps.2, hentered.references]
    · rcases hentered.rejected hrejected with hreported | ⟨hkind, -⟩
      · exact (hreported.of_subset hlater.errors).of_subset herrors
      · cases hkind
  refine Settles.either (fun _ => ?_) fun _ => (hnote _ c₁).imp fun _ _ => hdone (.refl _)
  exact (settles_error _ _ _ _ _).andThen fun _ c₂ hlater =>
    (hnote _ c₂).imp fun _ _ => hdone hlater

/-- The tools that a feature is for can be looked up. -/
def ListedFile.Keyed (known : Option (List String)) (listing : ListedFile) : Prop :=
  ∀ recipe ∈ listing.recipe?, ToolsKeyed known (field recipe "tools")

theorem ListedFile.settles_check {listing : ListedFile} (known : Option (List String))
    (regular : listing.Regular) (c : Check) :
    Settles c (listing.check known) (listing.Keyed known) fun _ c' => listing.Taken c c' := by
  obtain ⟨kind, owner, path, found⟩ := listing
  cases found with
  | error unusable =>
      refine (settles_countChecked.andThen (R := fun _ c' => Taken ⟨kind, owner, path, _⟩ c c')
        fun _ c₁ hlater => (settles_addError .parse _ _ _ path).imp ?_).iff
          (iff_of_true trivial fun _ h => by cases h)
      rintro _ c' ⟨hlater', hreported⟩
      have hkeeps := (hlater.trans hlater').keeps
      exact ⟨(hlater.trans hlater').errors, fun _ => by rw [hkeeps.1]; rfl,
        by rw [hkeeps.2]; exact (List.append_nil _).symm, fun _ => .inl hreported⟩
  | ok v =>
      obtain ⟨mapping, proper, short⟩ := regular v rfl
      change Settles c (checkFound known _ v) _ _
      rw [checkFound]
      by_cases hkind : kind = .feature
      · subst hkind
        rw [if_pos rfl]
        refine (settles_checkFeature known owner short proper mapping c).iff ?_
        simp [Keyed, recipe?]
      · rw [if_neg hkind]
        have hnone : recipe? ⟨kind, owner, path, .ok v⟩ = none := if_neg fun h => hkind h.1
        have hchecked : (checked ⟨kind, owner, path, .ok v⟩ v).isMapping = true ∧
            (checked ⟨kind, owner, path, .ok v⟩ v).Proper ∧
              (checked ⟨kind, owner, path, .ok v⟩ v).Short := by
          cases kind with
          | project => exact ⟨isMapping_completed mapping _, proper_completed proper,
              short_completed short _⟩
          | feature => exact absurd rfl hkind
          | _ => exact ⟨mapping, proper, short⟩
        refine (settles_checkDocument hchecked.2.2 hchecked.2.1 hchecked.1 (fun _ => rfl) c).mono
          (iff_of_true trivial fun _ h => by rw [hnone] at h; cases h) fun _ c' hentered => ?_
        obtain ⟨id, hid, hdocuments⟩ := hentered.documents
        refine ⟨hentered.errors, fun other => ?_, ?_, fun hrejected => ?_⟩
        · rw [hdocuments other, ListedFile.register]
          by_cases hother : kind = other
          · rw [if_pos ⟨hother.symm, rfl⟩]
            subst hother
            simp only [hid, hkind, ne_eq, not_false_eq_true, and_self, if_true]
          · rw [if_neg fun h => hother h.1.symm]
            exact (if_neg fun h => hother h.1).symm
        · rw [hentered.references, hnone]
          exact (List.append_nil _).symm
        · rcases hentered.rejected hrejected with hreported | ⟨rfl, hconflicted, id, hmem⟩
          · exact .inl hreported
          · exact .inr ⟨_, hmem, rfl, hconflicted⟩

/-! ## All listed files -/

/-- The documents that are registered for a kind, the first of each id. -/
def registered (listings : List ListedFile) (kind : ManifestKind) : Documents :=
  listings.foldl (ListedFile.register kind) []

def featureRecipes (listings : List ListedFile) : List Value :=
  listings.filterMap ListedFile.recipe?

/-- What is known of a check after some listed files. -/
structure Gathered (before : List ListedFile) (c : Check) : Prop where
  documents : ∀ kind, c.documents kind = registered before kind
  references : c.references.map (·.recipe) = (featureRecipes before).map (field · "id")
  noticed : ∀ listing ∈ before, listing.Rejected → listing.Noticed c

theorem subset_register (kind : ManifestKind) (documents : Documents) (listing : ListedFile) :
    documents ⊆ listing.register kind documents := by
  rw [ListedFile.register]
  split
  · split
    · split
      · rw [withNew]
        split
        · exact List.subset_append_left _ _
        · exact List.Subset.refl _
      · exact List.Subset.refl _
    · exact List.Subset.refl _
  · exact List.Subset.refl _

theorem ListedFile.Noticed.of_subset {listing : ListedFile} {c' : Check} (h : listing.Noticed c)
    (herrors : c.report.errors ⊆ c'.report.errors)
    (hdocuments : c.documents .project ⊆ c'.documents .project) : listing.Noticed c' := by
  rcases h with hreported | ⟨entry, hentry, hpath, hconflicted⟩
  · exact .inl (hreported.of_subset herrors)
  · exact .inr ⟨entry, hdocuments hentry, hpath, hconflicted⟩

theorem Gathered.step {before : List ListedFile} {listing : ListedFile} {c' : Check}
    (gathered : Gathered before c) (taken : listing.Taken c c') :
    Gathered (before ++ [listing]) c' := by
  refine ⟨fun kind => ?_, ?_, fun other hother hrejected => ?_⟩
  · rw [taken.documents kind, gathered.documents kind, registered, registered, List.foldl_append]
    rfl
  · rw [taken.references, gathered.references, featureRecipes, featureRecipes,
      List.filterMap_append, List.map_append]
    cases hrecipe : listing.recipe? <;> simp [hrecipe]
  · rcases List.mem_append.1 hother with hother | hother
    · refine (gathered.noticed other hother hrejected).of_subset taken.errors ?_
      rw [taken.documents]
      exact subset_register _ _ _
    · obtain rfl := List.mem_singleton.1 hother
      exact taken.noticed hrejected

/-- The listed files are gone through if the tools of each feature can be looked up. -/
theorem settles_gather (known : Option (List String)) (before : List ListedFile)
    {listings : List ListedFile}
    (regular : ∀ listing ∈ listings, listing.Regular) {c : Check} (gathered : Gathered before c) :
    Settles c (listings.forM (ListedFile.check known)) (∀ listing ∈ listings, listing.Keyed known)
      fun _ c' => Gathered (before ++ listings) c' := by
  induction listings generalizing before c with
  | nil =>
      refine (Settles.pure ()).mono (by simp) ?_
      rintro _ _ ⟨-, rfl⟩
      rwa [List.append_nil]
  | cons listing listings ih =>
      change Settles c (listing.check known >>= fun _ => listings.forM (ListedFile.check known)) _ _
      refine ((listing.settles_check known (regular listing List.mem_cons_self) c).bind
        (S := ∀ other ∈ listings, other.Keyed known) fun _ c₁ taken =>
          (ih _ (fun other hother => regular other (List.mem_cons_of_mem _ hother))
            (gathered.step taken)).imp fun _ c' h => ?_).iff (by simp)
      rwa [List.append_cons]

end Playbook.Validation
