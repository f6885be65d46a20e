import Playbook.Proofs.Manifest.Reading
import Playbook.Proofs.Validation.Checking

/-!
# Documents that were collected

A collection that passes has taken a document from every listed file, each
with an id of its own, and has noted the recipe of every feature.
-/

namespace Playbook

open Validation (field)

/-- In the documents of the tree only lists and mappings hold themselves. -/
def Tree.ProperDocuments (tree : Tree) : Prop :=
  ∀ path v, Manifests.document tree path = .ok (.ok v) → v.Proper

theorem Validation.get?_of_field {v : Value} {name s : String} (h : field v name = .text s) :
    ∃ es, v.opened = .mapping es ∧ Entries.get? es name = some (.text s) := by
  rw [field] at h
  split at h
  · rename_i es hv
    refine ⟨es, hv, ?_⟩
    cases hx : Entries.get? es name with
    | none =>
        rw [hx] at h
        cases h
    | some x =>
        rw [hx] at h
        exact congrArg some h
  · cases h

theorem Validation.idText_of_field {v : Value} {id : String} (h : field v "id" = .text id) :
    idText v = .ok id := by
  obtain ⟨es, hv, hid⟩ := get?_of_field h
  rw [idText, Value.fieldOr_eq hv, hid]
  rfl

/-- Every schema asks for an id. -/
theorem ManifestKind.exists_id {kind : ManifestKind} {v : Value} (proper : v.Proper)
    (h : kind.schema.schema.Accepts v) : ∃ id, id ≠ "" ∧ field v "id" = .text id := by
  have hid {names : List String} {fields : List (String × Schema)}
      (h : (Schema.objectWith names fields).Accepts v)
      (hfield : fields.lookup "id" = some Schema.filledText) (hname : "id" ∈ names) :
      ∃ id, id ≠ "" ∧ field v "id" = .text id := by
    obtain ⟨fits, hrequired⟩ := Fits.of_objectWith proper h
    obtain ⟨id, hfilled, hid, -⟩ := fits.requiredText "id" hfield hrequired hname
    exact ⟨id, hfilled, hid⟩
  cases kind with
  | rulepack => exact hid h rfl List.mem_cons_self
  | agent => exact hid h rfl List.mem_cons_self
  | prompt => exact hid h rfl List.mem_cons_self
  | recipe => exact hid h rfl List.mem_cons_self
  | project => exact hid h rfl List.mem_cons_self
  | feature => exact hid h rfl List.mem_cons_self

namespace Validation

variable {strict : Prop} {tree : Tree} {settings : Settings} {kind : ManifestKind} {path : Path}

/-- The id of a sound document is the text in its field. -/
theorem Sound.id_eq {v : Value} {id : String} (h : Sound kind v id) (proper : v.Proper) :
    id ≠ "" ∧ field v "id" = .text id := by
  obtain ⟨found, hfilled, hfield⟩ := ManifestKind.exists_id proper
    (ManifestKind.accepts_of_schemaErrors h.accepted)
  obtain rfl : found = id := Except.ok.inj ((idText_of_field hfield).symm.trans h.text)
  exact ⟨hfilled, hfield⟩

/-! ## Directories -/

/-- A registered document that a file holds. -/
structure Listed (tree : Tree) (kind : ManifestKind) (path : Path) (entry : String × Document) :
    Prop where
  place : entry.2.path = path
  loaded : Manifests.document tree path = .ok (.ok entry.2.value)
  proper : entry.2.value.Proper
  accepts : kind.schema.schema.Accepts entry.2.value
  filled : entry.1 ≠ ""
  form : isKebabCase entry.1 = true
  id : field entry.2.value "id" = .text entry.1

/-- A file that passes holds a document, which is then gone on with. -/
theorem finds_loaded {next : Value → Checking Unit} {other : Checking Unit}
    {R : Value → Check → Check → Prop} {S : Check → Unit → Check → Prop}
    (h : ∀ v, Finds strict (next v) fun c _ c' => R v c c') (hother : Finds strict other S) :
    Finds strict (do
      match ← load tree kind path with
      | some v => next v
      | none => other) fun c _ c' =>
        ∃ v, Manifests.document tree path = .ok (.ok v) ∧ R v c c' := by
  refine ((finds_load tree kind path).bind (R := fun found c _ c' =>
    ∀ v, found = some v → R v c c') fun found => ?_).mono ?_
  · cases found with
    | some v =>
        refine (h v).mono ?_
        rintro c _ c' hR _ ⟨rfl⟩
        exact hR
    | none => exact hother.mono fun _ _ _ _ => nofun
  · rintro c _ c' ⟨_, _, ⟨rfl, v, rfl, hloaded⟩, hR⟩
    exact ⟨v, hloaded, hR v rfl⟩

/-- A document is registered under an id of its own. -/
def Registers (kind : ManifestKind) (entry : String × Document) (c c' : Check) : Prop :=
  (c.documents kind).lookup entry.1 = none ∧ c'.references = c.references ∧
    c'.documents = withDocument kind entry c.documents

theorem finds_collectFile (proper : tree.ProperDocuments) :
    Finds strict (do
      match ← load tree kind path with
      | some document => checkDocument kind path document true
      | none => Pure.pure ()) fun c _ c' =>
        ∃ entry, Listed tree kind path entry ∧ Registers kind entry c c' := by
  refine (finds_loaded (fun v => finds_checkDocument kind path v true) (Finds.pure ())).mono ?_
  rintro c _ c' ⟨v, hloaded, id, hsound, hreferences, hdocuments⟩
  have hv := proper path v hloaded
  obtain ⟨hfilled, hid⟩ := hsound.id_eq hv
  rw [if_pos ⟨hfilled, rfl⟩] at hdocuments
  exact ⟨(id, ⟨path, v⟩),
    ⟨rfl, hloaded, hv, ManifestKind.accepts_of_schemaErrors hsound.accepted, hfilled,
      hsound.form hfilled, hid⟩,
    hdocuments.1, hreferences, hdocuments.2⟩

/-- The documents of some files, in their order. -/
def Lists (tree : Tree) (kind : ManifestKind) (paths : List Path) (documents : Documents) : Prop :=
  List.Forall₂ (Listed tree kind) paths documents ∧ (documents.map (·.1)).Nodup

theorem Finds.Chain.lists {paths : List Path} {c c' : Check}
    (h : Chain (fun path c c' => ∃ entry, Listed tree kind path entry ∧ Registers kind entry c c')
      paths c c') :
    (∀ before, Lists tree kind before (c.documents kind) →
      Lists tree kind (before ++ paths) (c'.documents kind)) ∧ c'.references = c.references ∧
        ∀ other ≠ kind, c'.documents other = c.documents other := by
  induction h with
  | nil c => exact ⟨fun before h => by rwa [List.append_nil], rfl, fun _ _ => rfl⟩
  | @cons path paths c c' c'' h _ ih =>
      obtain ⟨entry, hlisted, hnew, hreferences, hdocuments⟩ := h
      have hown : c'.documents kind = c.documents kind ++ [entry] := by
        rw [hdocuments, withDocument, if_pos rfl]
      obtain ⟨hall, hkept, hothers⟩ := ih
      refine ⟨fun before hbefore => ?_, hkept.trans hreferences, fun other hother => ?_⟩
      · rw [List.append_cons]
        refine hall _ ?_
        rw [hown]
        refine ⟨List.rel_append hbefore.1 (.cons hlisted .nil), ?_⟩
        rw [List.map_append, List.nodup_append]
        refine ⟨hbefore.2, by simp, ?_⟩
        rintro id hid other hother rfl
        rw [List.map_singleton, List.mem_singleton] at hother
        exact lookup_eq_none_iff.1 hnew (hother ▸ hid)
      · rw [hothers other hother, hdocuments, withDocument, if_neg hother]

/-- Where the files of a kind are. -/
def skippedDirs (kind : ManifestKind) : List String :=
  if kind = .prompt then Manifests.sharedDirs else []

/-- Every manifest file of a directory has given a document of its own. -/
def Reads (tree : Tree) (settings : Settings) (entry : String × ManifestKind)
    (documents : Documents) : Prop :=
  ∃ directory paths, settings.dirPath entry.1 = .ok directory ∧
    Manifests.files tree directory (skippedDirs entry.2) = .ok paths ∧
      Lists tree entry.2 paths documents

theorem finds_collectDirectory (proper : tree.ProperDocuments) (entry : String × ManifestKind) :
    Finds strict (collectDirectory tree settings entry) fun c _ c' =>
      (c.documents entry.2 = [] → Reads tree settings entry (c'.documents entry.2)) ∧
        c'.references = c.references ∧
          ∀ other ≠ entry.2, c'.documents other = c.documents other := by
  refine ((Finds.attempt (settings.dirPath entry.1)).bind fun directory =>
    (Finds.attempt (Manifests.files tree directory (skippedDirs entry.2))).bind fun paths =>
      Finds.forM fun path _ => finds_collectFile proper).mono ?_
  rintro _ _ c' ⟨directory, _, ⟨hdirectory, rfl⟩, paths, c, ⟨hpaths, rfl⟩, hchain⟩
  obtain ⟨hlists, hkept⟩ := hchain.lists
  refine ⟨fun hstart => ?_, hkept⟩
  have hnone : Lists tree entry.2 [] (c.documents entry.2) := by
    rw [hstart]
    exact ⟨.nil, .nil⟩
  exact ⟨directory, paths, hdirectory, hpaths, hlists [] hnone⟩

/-- Directories of different kinds are read one after the other. -/
theorem Finds.Chain.reads {entries : List (String × ManifestKind)} {c c' : Check}
    (h : Chain (fun entry c c' =>
      (c.documents entry.2 = [] → Reads tree settings entry (c'.documents entry.2)) ∧
        c'.references = c.references ∧
          ∀ other ≠ entry.2, c'.documents other = c.documents other) entries c c')
    (hkinds : (entries.map (·.2)).Nodup) (hstart : ∀ kind, c.documents kind = []) :
    ∀ entry ∈ entries, Reads tree settings entry (c'.documents entry.2) := by
  have hgeneral : (∀ entry ∈ entries, c.documents entry.2 = [] →
      Reads tree settings entry (c'.documents entry.2)) ∧
        ∀ kind ∉ entries.map (·.2), c'.documents kind = c.documents kind := by
    clear hstart
    induction h with
    | nil c => exact ⟨by simp, fun _ _ => rfl⟩
    | @cons first entries c c' c'' h _ ih =>
        obtain ⟨hread, -, hothers⟩ := h
        rw [List.map_cons, List.nodup_cons] at hkinds
        obtain ⟨hall, hkept⟩ := ih hkinds.2
        refine ⟨fun entry hentry hstart => ?_, fun kind hkind => ?_⟩
        · rcases List.mem_cons.1 hentry with rfl | hentry
          · rw [hkept _ hkinds.1]
            exact hread hstart
          · refine hall entry hentry ?_
            rwa [hothers]
            rintro heq
            exact hkinds.1 (heq ▸ List.mem_map_of_mem hentry)
        · rw [List.map_cons, List.mem_cons, not_or] at hkind
          rw [hkept kind hkind.2, hothers kind hkind.1]
  exact fun entry hentry => hgeneral.1 entry hentry (hstart entry.2)

/-! ## Projects and features -/

/-- The documents of the four directories stay, and references are only added. -/
def Grows (c c' : Check) : Prop :=
  (∀ kind ≠ .project, c'.documents kind = c.documents kind) ∧ c.references ⊆ c'.references

theorem Grows.refl (c : Check) : Grows c c := ⟨fun _ _ => rfl, List.Subset.refl _⟩

theorem Grows.trans {c₁ c₂ c₃ : Check} (h : Grows c₁ c₂) (h' : Grows c₂ c₃) : Grows c₁ c₃ :=
  ⟨fun kind hkind => (h'.1 kind hkind).trans (h.1 kind hkind), List.Subset.trans h.2 h'.2⟩

theorem Keeps.grows {c c' : Check} (h : Keeps c c') : Grows c c' :=
  ⟨fun _ _ => by rw [h.1], by rw [h.2]; exact List.Subset.refl _⟩

/-- What each of some steps finds for good, all of them find. -/
theorem Finds.Chain.grows {ι : Type} {P : ι → Check → Prop}
    (hmono : ∀ x c c', Grows c c' → P x c → P x c') {l : List ι} {c c' : Check}
    (h : Chain (fun x c c' => P x c' ∧ Grows c c') l c c') :
    (∀ x ∈ l, P x c') ∧ Grows c c' := by
  induction h with
  | nil c => exact ⟨by simp, .refl c⟩
  | @cons first l c c' c'' h _ ih =>
      refine ⟨fun x hx => ?_, h.2.trans ih.2⟩
      rcases List.mem_cons.1 hx with rfl | hx
      · exact hmono _ _ _ ih.2 h.1
      · exact ih.1 x hx

theorem finds_unknownTool (known : List String) (location : String) (path : Path) (tool : Value) :
    Finds strict (unknownTool known location path tool) fun c _ c' => Keeps c c' := by
  unfold unknownTool
  refine (Finds.guarded (Finds.throw _) (Finds.refused ?_)).mono fun _ _ _ h => h.2.2
  exact Finds.never (Finds.attempt _) fun _ => finds_addError _ _ _ _ _

theorem finds_checkTools (known : Option (List String)) (location : String) (tools : Value)
    (path : Path) : Finds strict (checkTools known location tools path) fun c _ c' => Keeps c c' := by
  unfold checkTools
  split
  · refine (Finds.forM_keeps (P := fun _ => True) fun tool _ => ?_).mono fun _ _ _ h => h.2
    exact (finds_unknownTool _ _ _ _).mono fun _ _ _ h => ⟨trivial, h⟩
  · exact Finds.nothing

/-- The recipe that a document names is among the references. -/
def Noted (document : Value) (c : Check) : Prop :=
  (field document "recipe").isMapping = true →
    ∃ reference ∈ c.references, reference.recipe = field (field document "recipe") "id"

private theorem finds_noteRecipe (known : Option (List String)) (location : String) (path : Path)
    (document : Value) :
    Finds strict (do
      let recipe := field document "recipe"
      if recipe.isMapping then
        checkTools known location (field recipe "tools") path
        modify fun c => { c with
          references := c.references ++ [⟨location, field recipe "id", path⟩] }) fun c _ c' =>
            Noted document c' ∧ Grows c c' := by
  have hnote : Finds strict (modify fun c : Check => { c with
      references := c.references ++ [⟨location, field (field document "recipe") "id", path⟩] })
      fun c _ c' => Noted document c' ∧ Grows c c' := by
    intro c a c' hrun hpassed
    cases hrun
    refine ⟨hpassed, fun _ => ⟨_, List.mem_append_right _ (List.mem_singleton_self _), rfl⟩, ?_⟩
    exact ⟨fun _ _ => rfl, List.subset_append_left _ _⟩
  refine Finds.ite (fun _ => ((finds_checkTools _ _ _ _).bind fun _ => hnote).mono ?_) fun hno => ?_
  · rintro c _ c' ⟨_, _, hkeeps, hnoted, hgrows⟩
    exact ⟨hnoted, hkeeps.grows.trans hgrows⟩
  · exact Finds.nothing.mono fun c _ c' h => ⟨fun hmapping => absurd hmapping hno, h.grows⟩

theorem finds_checkFeature (known : Option (List String)) (project : String) (path : Path)
    (document : Value) :
    Finds strict (checkFeature known project path document) fun c _ c' =>
      (∃ id, Sound .feature (completed path.parent.name document) id) ∧ Noted document c' ∧
        Grows c c' := by
  refine ((finds_checkDocument .feature path (completed path.parent.name document) false).bind
    fun _ => (Finds.attempt _).bind fun id => Finds.guarded (finds_addError _ _ _ _ _)
      (finds_noteRecipe known _ path document)).mono ?_
  rintro c _ c' ⟨_, c₁, ⟨id, hsound, hreferences, hdocuments⟩, _, _, ⟨-, rfl⟩, -, hnoted, hgrows⟩
  rw [if_neg (by simp)] at hdocuments
  have hkeeps : Keeps c _ := ⟨hdocuments, hreferences⟩
  exact ⟨⟨id, hsound⟩, hnoted, hkeeps.grows.trans hgrows⟩

/-- A feature file that was checked, with its recipe noted. -/
def Featured (tree : Tree) (path : Path) (c : Check) : Prop :=
  ∃ v id, Manifests.document tree path = .ok (.ok v) ∧
    Sound .feature (completed path.parent.name v) id ∧ Noted v c

theorem Featured.grows {c c' : Check} (hgrows : Grows c c') (h : Featured tree path c) :
    Featured tree path c' := by
  obtain ⟨v, id, hloaded, hsound, hnoted⟩ := h
  refine ⟨v, id, hloaded, hsound, fun hmapping => ?_⟩
  obtain ⟨reference, hmem, hrecipe⟩ := hnoted hmapping
  exact ⟨reference, hgrows.2 hmem, hrecipe⟩

/-- All features of the project in a directory were checked. -/
def FeaturedBelow (tree : Tree) (directory : Path) (c : Check) : Prop :=
  ∃ paths, Store.featureFiles tree directory = .ok paths ∧ ∀ path ∈ paths, Featured tree path c

theorem FeaturedBelow.grows {directory : Path} {c c' : Check} (hgrows : Grows c c')
    (h : FeaturedBelow tree directory c) : FeaturedBelow tree directory c' := by
  obtain ⟨paths, hpaths, hall⟩ := h
  exact ⟨paths, hpaths, fun path hpath => (hall path hpath).grows hgrows⟩

private theorem finds_featureFile (known : Option (List String)) (project : String) :
    Finds strict (do
      match ← load tree .feature path with
      | some document => checkFeature known project path document
      | none => Pure.pure ()) fun c _ c' => Featured tree path c' ∧ Grows c c' := by
  refine (finds_loaded (fun v => finds_checkFeature known project path v) (Finds.pure ())).mono ?_
  rintro c _ c' ⟨v, hloaded, ⟨id, hsound⟩, hnoted, hgrows⟩
  exact ⟨⟨v, id, hloaded, hsound, hnoted⟩, hgrows⟩

private theorem finds_featureFiles (known : Option (List String)) (directory : Path) :
    Finds strict (do
      let paths ← (Store.featureFiles tree directory : Attempt (List Path))
      paths.forM fun path => do
        match ← load tree .feature path with
        | some document => checkFeature known directory.name path document
        | none => Pure.pure ()) fun c _ c' => FeaturedBelow tree directory c' ∧ Grows c c' := by
  refine ((Finds.attempt _).bind fun paths =>
    Finds.forM fun path _ => finds_featureFile known directory.name).mono ?_
  rintro c _ c' ⟨paths, _, ⟨hpaths, rfl⟩, hchain⟩
  obtain ⟨hall, hgrows⟩ := hchain.grows (P := Featured tree) fun _ _ _ => Featured.grows
  exact ⟨⟨paths, hpaths, hall⟩, hgrows⟩

/-- The directory of a project whose files were all checked. -/
structure Surveyed (tree : Tree) (directory : Path) (c : Check) : Prop where
  project : ∀ path, Manifests.firstFile? tree directory Manifests.projectFiles = .ok (some path) →
    ∃ v id, Manifests.document tree path = .ok (.ok v) ∧
      Sound .project (completed directory.name v) id
  features : FeaturedBelow tree directory c

theorem Surveyed.grows {directory : Path} {c c' : Check} (hgrows : Grows c c')
    (h : Surveyed tree directory c) : Surveyed tree directory c' :=
  ⟨h.project, h.features.grows hgrows⟩

theorem finds_collectProject (known : Option (List String)) (directory : Path) :
    Finds strict (collectProject tree known directory) fun c _ c' =>
      Surveyed tree directory c' ∧ Grows c c' := by
  have hfeatures := @finds_featureFiles strict tree known directory
  refine ((Finds.attempt _).bind (R := fun found c _ c' => (∀ path, found = some path →
    ∃ v id, Manifests.document tree path = .ok (.ok v) ∧
      Sound .project (completed directory.name v) id) ∧
        FeaturedBelow tree directory c' ∧ Grows c c') fun found => ?_).mono ?_
  · cases found with
    | none =>
        refine hfeatures.mono fun c _ c' h => ⟨?_, h⟩
        rintro path ⟨⟩
    | some path =>
        refine (finds_loaded (fun v => (finds_checkDocument .project path _ true).bind
          fun _ => hfeatures) hfeatures).mono ?_
        rintro c _ c' ⟨v, hloaded, _, c₁, ⟨id, hsound, hreferences, hdocuments⟩, hbelow, hgrows⟩
        have hfile : Grows c c₁ := by
          refine ⟨fun kind hkind => ?_, by rw [hreferences]; exact List.Subset.refl _⟩
          split at hdocuments
          · rw [hdocuments.2, withDocument, if_neg hkind]
          · rw [hdocuments]
        refine ⟨?_, hbelow, hfile.trans hgrows⟩
        rintro _ ⟨rfl⟩
        exact ⟨v, id, hloaded, hsound⟩
  · rintro c _ c' ⟨found, _, ⟨hfound, rfl⟩, hproject, hbelow, hgrows⟩
    refine ⟨⟨fun path hpath => ?_, hbelow⟩, hgrows⟩
    exact hproject path (Except.ok.inj (hfound.symm.trans hpath))

/-- All projects below a directory were checked. -/
def SurveyedUnder (tree : Tree) (source : Path) (c : Check) : Prop :=
  ∃ directories, tree.subdirectories source = .ok directories ∧
    ∀ directory ∈ directories, Surveyed tree directory c

/-- What is known of a repository once everything in it has been collected. -/
structure Collected (tree : Tree) (settings : Settings) (c : Check) : Prop where
  reads : ∀ entry ∈ directoryKinds, Reads tree settings entry (c.documents entry.2)
  projects : ∃ sources, settings.projectDirs = .ok sources ∧
    ∀ source ∈ sources, SurveyedUnder tree source c

theorem SurveyedUnder.grows {source : Path} {c c' : Check} (hgrows : Grows c c')
    (h : SurveyedUnder tree source c) : SurveyedUnder tree source c' := by
  obtain ⟨directories, hdirectories, hall⟩ := h
  exact ⟨directories, hdirectories, fun directory hmem => (hall directory hmem).grows hgrows⟩

private theorem finds_collectSource (known : Option (List String)) (source : Path) :
    Finds strict (do
      let directories ← (tree.subdirectories source : Attempt (List Path))
      directories.forM (collectProject tree known)) fun c _ c' =>
        SurveyedUnder tree source c' ∧ Grows c c' := by
  refine ((Finds.attempt _).bind fun directories =>
    Finds.forM fun directory _ => finds_collectProject known directory).mono ?_
  rintro c _ c' ⟨directories, _, ⟨hdirectories, rfl⟩, hchain⟩
  obtain ⟨hall, hgrows⟩ := hchain.grows (P := Surveyed tree) fun _ _ _ => Surveyed.grows
  exact ⟨⟨directories, hdirectories, hall⟩, hgrows⟩

theorem finds_collect (proper : tree.ProperDocuments) (known : Option (List String)) :
    Finds strict (collect tree settings known) fun c _ c' =>
      (∀ kind, c.documents kind = []) → Collected tree settings c' := by
  refine ((Finds.forM fun entry _ => finds_collectDirectory proper entry).bind fun _ =>
    (Finds.attempt settings.projectDirs).bind fun sources =>
      Finds.forM fun source _ => finds_collectSource known source).mono ?_
  rintro c _ c' ⟨_, c₁, hreads, sources, _, ⟨hsources, rfl⟩, hchain⟩ hstart
  obtain ⟨hall, hgrows⟩ := hchain.grows (P := SurveyedUnder tree) fun _ _ _ => SurveyedUnder.grows
  refine ⟨fun entry hentry => ?_, sources, hsources, hall⟩
  have hkinds : ∀ entry ∈ directoryKinds, entry.2 ≠ .project := by decide
  rw [hgrows.1 entry.2 (hkinds entry hentry)]
  exact hreads.reads (by decide) hstart entry hentry

end Validation

end Playbook
