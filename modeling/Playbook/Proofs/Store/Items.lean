import Playbook.Proofs.Manifest.Acceptance
import Playbook.Proofs.Store.Index
import Playbook.Proofs.Store.Loading
import Playbook.Proofs.Validation.Features

/-!
# What is loaded from a repository that was checked

Each manifest that a store gives has been read from a document that was
checked, so that it has what the schema of its kind asks for.
-/

namespace Playbook

open Work
open Validation (Collected Listed completed field)

/-! ## Items of a store -/

namespace Store

variable {store : Store} {c : Validation.Check} {kind : Kind}

theorem of_exec_kept_ok {α : Type} {current : Store → Option (Collection.Items α)}
    {reading : Store → Log × Attempt (Collection.Items α)}
    {keep : Collection.Items α → Store → Store} {log : Log} {items : Collection.Items α}
    {rest : Store × Log} (h : exec (kept current reading keep) (store, log) = (.ok items, rest)) :
    current store = some items ∨ (reading store).2 = .ok items := by
  cases hcurrent : current store with
  | none =>
      obtain ⟨t, hexec⟩ := @exec_kept α current reading keep store hcurrent log
      exact .inr (congrArg Prod.fst (hexec.symm.trans h))
  | some held =>
      unfold kept at h
      rw [exec_bind_ok (exec_state _ _), hcurrent] at h
      cases h
      exact .inl rfl

/-- A store gives of a kind what reading it gives. -/
theorem Faithful.reading (faithful : store.Faithful) {items : Collection.Items kind.Record}
    {rest : Store × Log} (h : kind.items.runFrom store = (.ok items, rest)) :
    (kind.reading store).2 = .ok items := by
  have hcases : kind.held store = some items ∨ (kind.reading store).2 = .ok items := by
    cases kind <;> exact of_exec_kept_ok h
  exact hcases.elim (faithful kind items) id

/-- What a reader of a kind has given is what it takes from an accepted document. -/
theorem Kind.reads_of_parse {path : Path} {v : Value} (proper : v.Proper)
    (haccepts : kind.manifest.schema.schema.Accepts v) {record : kind.Record}
    (h : kind.parse store path v = .ok record) : kind.Reads v record := by
  have showable : kind.Showable v := by
    cases kind with
    | rulepacks | agents => trivial
    | prompts => exact Prompt.showable_of_ofValue h
    | recipes => exact Recipe.showable_of_ofValue h
  obtain ⟨other, hother, hreads⟩ := kind.exists_parse store path proper haccepts showable
  obtain rfl := Except.ok.inj (h.symm.trans hother)
  exact hreads

/-- An item has been read from a document that was checked, and is found by its id. -/
theorem exists_listed (kind : Kind) (collected : Collected store.tree store.settings c)
    {items : Collection.Items kind.Record} (hreading : (kind.reading store).2 = .ok items)
    {item : Value × Path × kind.Record} (hitem : item ∈ items) :
    ∃ path entry, Listed store.tree kind.manifest path entry ∧
      kind.Reads entry.2.value item.2.2 ∧ item.1 = kind.id item.2.2 := by
  obtain ⟨directory, paths, hdirectory, hpaths, hlists⟩ :=
    collected.reads _ kind.mem_directoryKinds
  rw [kind.skippedDirs_manifest] at hpaths
  rw [Kind.reading, Store.read, hdirectory] at hreading
  obtain ⟨_, hfound, path, hpath, ⟨v, hdocument, hparse⟩, hkey, -⟩ :=
    Collection.exists_yields_of_read hreading hitem
  obtain rfl := Except.ok.inj (hpaths.symm.trans hfound)
  obtain ⟨entry, -, hlisted⟩ := exists_right_of_mem hlists.1 hpath
  obtain rfl := Except.ok.inj (Except.ok.inj (hlisted.loaded.symm.trans hdocument))
  exact ⟨path, entry, hlisted, Kind.reads_of_parse hlisted.proper hlisted.accepts hparse, hkey⟩

theorem exists_reads (kind : Kind) (collected : Collected store.tree store.settings c)
    (faithful : store.Faithful) {items : Collection.Items kind.Record} {rest : Store × Log}
    (h : kind.items.runFrom store = (.ok items, rest)) {item : Value × Path × kind.Record}
    (hitem : item ∈ items) : ∃ v, kind.Reads v item.2.2 := by
  obtain ⟨_, _, -, hreads, -⟩ := exists_listed kind collected (faithful.reading h) hitem
  exact ⟨_, hreads⟩

end Store

/-! ## Projects -/

theorem Project.of_ofValue {v : Value} {sourceDir : String} {project : Project}
    (h : ofValue v sourceDir = .ok project) :
    field v "id" = project.id ∧ project.sourceDir = sourceDir := by
  obtain ⟨_, _, h⟩ := Attempt.of_bind_ok h
  obtain ⟨id, hid, h⟩ := Attempt.of_bind_ok h
  iterate 10 obtain ⟨_, _, h⟩ := Attempt.of_bind_ok h
  cases h
  exact ⟨Validation.field_eq_of_required hid, rfl⟩

namespace Store

variable {strict : Prop} {store : Store} {c : Validation.Check}

theorem exec_absent_ne_ok {α : Type} (kind : String) (id : Value) (directory : Option String)
    (a : α) (s t : Store × Log) : exec (absent kind id directory) s ≠ (.ok a, t) := by
  intro h
  unfold absent at h
  dsimp only at h
  cases directory with
  | none =>
      iterate 2 obtain ⟨_, _, _, h⟩ := of_exec_bind_ok h
      cases h
  | some name =>
      iterate 2 obtain ⟨_, _, _, h⟩ := of_exec_bind_ok h
      cases h

/-- A project that is loaded was read from the manifest in its directory. -/
theorem of_exec_loadProject_ok {id : Value} {project : Project} {log : Log} {rest : Store × Log}
    (h : exec (loadProject id) (store, log) = (.ok project, rest)) :
    ∃ directory path v, store.projectDir? id = .ok (some directory) ∧
      Manifests.firstFile? store.tree directory Manifests.projectFiles = .ok (some path) ∧
        Manifests.document store.tree path = .ok (.ok v) ∧
          Project.ofValue (Manifests.withId id v) directory.text = .ok project ∧
            rest = (store, log) := by
  unfold loadProject at h
  obtain ⟨found, _, hfind, h⟩ := of_exec_bind_ok h
  rw [exec_findProjectDir] at hfind
  cases found with
  | none => exact absurd h (exec_absent_ne_ok _ _ _ _ _ _)
  | some directory =>
      obtain ⟨hdirectory, rfl⟩ := Prod.mk.inj hfind
      rw [exec_bind_ok (exec_state _ _)] at h
      obtain ⟨file, _, hfile, h⟩ := of_exec_bind_ok h
      obtain ⟨hfile', rfl⟩ := of_exec_attempt_ok hfile
      cases file with
      | none => exact absurd h (exec_absent_ne_ok _ _ _ _ _ _)
      | some path =>
          obtain ⟨v, _, hload, h⟩ := of_exec_bind_ok h
          obtain ⟨hload', rfl⟩ := of_exec_attempt_ok hload
          obtain ⟨hread, rfl⟩ := of_exec_attempt_ok h
          refine ⟨directory, path, v, hdirectory, hfile', ?_, ?_, rfl⟩
          · obtain ⟨found, hfound, hkind⟩ := Attempt.of_bind_ok hload'
            cases found with
            | error unusable => cases hkind
            | ok own =>
                cases hkind
                exact hfound
          · unfold unloadableIfContent at hread
            split at hread
            · split at hread <;> cases hread
            · cases hread
              assumption

theorem name_of_projectDir? {name : String} (plain : Path.PlainName name) {directory : Path}
    (h : store.projectDir? (.text name) = .ok (some directory)) : directory.name = name := by
  obtain ⟨sources, -, h⟩ := Attempt.of_bind_ok h
  obtain ⟨source, -, rfl⟩ := List.mem_map.1 (Attempt.of_findM?_ok h).1
  rw [Path.child_plain plain, Path.name, Manifests.pathBelow, List.getLast?_append]
  rfl

/-- A project that was checked has an id in kebab case. -/
theorem exists_projectId (collected : Collected store.tree store.settings c)
    (proper : store.tree.ProperDocuments) {name : String} (plain : Path.PlainName name)
    {project : Project} {rest : Store × Log}
    (h : (loadProject (.text name)).runFrom store = (.ok project, rest)) :
    ∃ id, project.id = .text id ∧ Validation.isKebabCase id = true := by
  obtain ⟨directory, path, v, hdirectory, hpath, hdocument, hread, -⟩ := of_exec_loadProject_ok h
  have surveyed := surveyed_of_projectDir? collected (fun _ hname => by cases hname; exact plain)
    hdirectory
  obtain ⟨own, id, hown, hsound⟩ := surveyed.project path hpath
  obtain rfl := Except.ok.inj (Except.ok.inj (hdocument.symm.trans hown))
  rw [name_of_projectDir? plain hdirectory] at hsound
  have hv := proper path v hdocument
  have hfilled := (hsound.id_eq (Validation.proper_completed hv)).1
  exact ⟨id, (Project.of_ofValue hread).1.symm.trans (hsound.field_withId hv
    (Manifests.isMapping_of_document hdocument)), hsound.form hfilled⟩

/-- A feature that was checked has a text for its id. -/
theorem exists_featureId (collected : Collected store.tree store.settings c)
    (checked : Validation.Checked strict c) (proper : store.tree.ProperDocuments) {name : String}
    (plain : Path.PlainName name) {features : List Feature} {rest : Store × Log}
    (h : (loadFeatures (.text name)).runFrom store = (.ok features, rest)) {feature : Feature}
    (hfeature : feature ∈ features) : ∃ id, feature.id = .text id := by
  have hbound := Writes.gives (writes_loadFeatures checked proper fun directory hdirectory =>
    (surveyed_of_projectDir? collected (fun _ hname => by cases hname; exact plain)
      hdirectory).features) rfl (congrArg Prod.fst h)
  obtain ⟨id, hid, -⟩ := (hbound feature hfeature).id
  exact ⟨id, hid⟩

end Store

end Playbook
