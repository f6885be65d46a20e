import Playbook.Proofs.Manifest.Faults
import Playbook.Proofs.Yaml.Document
import Playbook.Store

/-!
# Faults of a store

Where manifests cannot be read or listed, the fault is one of a value or a
file, and so none for which a recipe is passed over. Only the look-up of a
manifest that has to be there misses one.
-/

namespace Playbook

open Fault (IsLocal)

/-! ## Files -/

namespace Tree

variable (tree : Tree) (path : Path)

theorem isLocal_ask : FailsBy IsLocal (tree.ask path) := by
  unfold ask
  split
  · exact .ok _
  · split
    · exact .ok _
    · exact FailsBy.error_iff.2 rfl
    · exact .ok _

theorem isLocal_entriesAt : FailsBy IsLocal (tree.entriesAt path) := by
  refine (tree.isLocal_ask path).bind fun found => ?_
  split <;> exact .ok _

theorem isLocal_filesBelow : FailsBy IsLocal (tree.filesBelow path) :=
  (tree.isLocal_entriesAt path).bind fun _ => .ok _

theorem isLocal_isFile : FailsBy IsLocal (tree.isFile path) := by
  refine (tree.isLocal_ask path).bind fun found => ?_
  split <;> exact .ok _

theorem isLocal_isDirectory : FailsBy IsLocal (tree.isDirectory path) := by
  refine (tree.isLocal_ask path).bind fun found => ?_
  split <;> exact .ok _

theorem isLocal_subdirectories : FailsBy IsLocal (tree.subdirectories path) :=
  (tree.isLocal_entriesAt path).bind fun _ => .ok _

theorem isLocal_document : FailsBy IsLocal (tree.document path) := by
  have hopened : FailsBy IsLocal (tree.open? path) := by
    unfold open?
    split
    · exact FailsBy.error_iff.2 rfl
    · split <;> exact .ok _
  refine hopened.bind fun found => ?_
  split
  · exact .ok _
  · rename_i f
    have hvalue : FailsBy Yaml.Trouble.IsLocal (f.content.value path.text) := by
      unfold Content.value
      split
      · exact .ok _
      · exact Yaml.isLocal_read (Yaml.Source.isLocal_ofChars _) _
      · exact Yaml.isLocal_read (Yaml.Source.isLocal_ofBytes _) _
    split
    · exact .ok _
    · exact .ok _
    · rename_i fault heq
      exact FailsBy.error_iff.2 (hvalue _ heq)

end Tree

namespace Manifests

variable (tree : Tree)

theorem isLocal_files (directory : Path) (skipped : List String) :
    FailsBy IsLocal (files tree directory skipped) :=
  (tree.isLocal_filesBelow directory).bind fun _ => .ok _

theorem isLocal_firstFile? (directory : Path) (names : List String) :
    FailsBy IsLocal (firstFile? tree directory names) :=
  .findM? fun path _ => tree.isLocal_isFile path

theorem isLocal_document (path : Path) : FailsBy IsLocal (document tree path) := by
  refine (tree.isLocal_document path).bind fun found => ?_
  split
  · exact .ok _
  · exact .ite (.ok _) (.ite (.ok _) (.ok _))

theorem isLocal_loadAll (paths : List Path) : FailsBy IsLocal (loadAll tree paths).2 := by
  refine FailsBy.map (FailsBy.mapM fun entry hentry => ?_) _
  obtain ⟨path, -, rfl⟩ := List.mem_map.1 hentry
  exact (isLocal_document tree path).map _

end Manifests

/-! ## Collections -/

namespace Collection

variable {α : Type} {kind : String} {id : α → Value} {parse : Path → Value → Attempt α}

theorem isLocal_addDocument (hparse : ∀ path v, FailsBy IsLocal (parse path v)) (items : Items α)
    (path : Path) (document : Value) :
    FailsBy IsLocal (addDocument kind id parse items path document).2 := by
  unfold addDocument
  split
  · rename_i fault heq
    split
    · exact .ok _
    · exact FailsBy.error_iff.2 (hparse path document fault heq)
  · dsimp only
    split
    · exact FailsBy.error_iff.2 rfl
    · split <;> exact .ok _

theorem isLocal_addDocuments (hparse : ∀ path v, FailsBy IsLocal (parse path v)) :
    ∀ (documents : List (Path × Value)) (items : Items α),
      FailsBy IsLocal (addDocuments kind id parse items documents).2
  | [], _ => .ok _
  | (path, document) :: documents, items => by
      have hadd : FailsBy IsLocal (addDocument kind id parse items path document).2 :=
        isLocal_addDocument hparse items path document
      unfold addDocuments
      split
      · rename_i log fault heq
        rw [heq] at hadd
        exact FailsBy.error_iff.2 (hadd fault rfl)
      · exact isLocal_addDocuments hparse documents _

theorem isLocal_read (hparse : ∀ path v, FailsBy IsLocal (parse path v)) (tree : Tree)
    (directory : Path) (skipped : List String) :
    FailsBy IsLocal (read tree directory kind id parse skipped).2 := by
  unfold read
  split
  · rename_i fault heq
    exact FailsBy.error_iff.2 (Manifests.isLocal_files tree directory skipped fault heq)
  · rename_i paths _
    have hload := Manifests.isLocal_loadAll tree paths
    split
    · rename_i log fault heq
      rw [heq] at hload
      exact FailsBy.error_iff.2 (hload fault rfl)
    · exact isLocal_addDocuments hparse _ _

end Collection

theorem Settings.isLocal_dirPath (settings : Settings) (kind : String) :
    FailsBy IsLocal (settings.dirPath kind) := by
  have hname : FailsBy IsLocal (settings.dirName kind) := by
    unfold dirName
    split
    · exact .ok _
    · exact FailsBy.error_iff.2 rfl
  exact hname.bind fun _ => .ok _

namespace Store

variable (store : Store)

theorem isLocal_read {α : Type} {kind : String} {id : α → Value} {parse : Path → Value → Attempt α}
    (hparse : ∀ path v, FailsBy IsLocal (parse path v)) (skipped : List String) :
    FailsBy IsLocal (store.read kind id parse skipped).2 := by
  unfold read
  split
  · rename_i fault heq
    exact FailsBy.error_iff.2 (store.settings.isLocal_dirPath kind fault heq)
  · exact Collection.isLocal_read hparse _ _ _

theorem isLocal_readAgents : FailsBy IsLocal store.readAgents.2 :=
  store.isLocal_read (fun _ v => Agent.isLocal_ofValue v) _

theorem isLocal_readPrompts : FailsBy IsLocal store.readPrompts.2 :=
  store.isLocal_read (fun _ v => Prompt.isLocal_ofValue v _) _

theorem isLocal_readRecipes : FailsBy IsLocal store.readRecipes.2 :=
  store.isLocal_read (fun _ v => Recipe.isLocal_ofValue v) _

/-! ## Works -/

/-- A work fails by local faults only and keeps what is said of agents, files and settings. -/
abbrev Locally {α : Type} (J : Option (Collection.Items Agent) → Tree → Settings → Prop)
    (work : Work Store α) : Prop :=
  Work.Fails IsLocal (fun s => J s.agents s.tree s.settings) work

variable {J : Option (Collection.Items Agent) → Tree → Settings → Prop}

theorem locally_kept {α : Type} {current : Store → Option (Collection.Items α)}
    {reading : Store → Log × Attempt (Collection.Items α)}
    {keep : Collection.Items α → Store → Store} (h : ∀ store, FailsBy IsLocal (reading store).2)
    (hkeep : ∀ items store, J store.agents store.tree store.settings →
      J (keep items store).agents (keep items store).tree (keep items store).settings) :
    Locally J (kept current reading keep) := by
  unfold kept
  refine .get fun store hstore => ?_
  split
  · exact .pure _
  · refine (Work.Fails.tell _).bind fun _ => ?_
    refine Work.Fails.bind (.attempt (h store)) fun items => ?_
    exact Work.Fails.bind (.setState (hkeep items store hstore)) fun _ => .pure _

theorem locally_recipeItems : Locally J recipeItems := by
  unfold recipeItems
  exact locally_kept isLocal_readRecipes fun _ _ hs => hs

theorem locally_promptPaths : Locally J promptPaths := by
  have hitems : Locally J promptItems := by
    unfold promptItems
    exact locally_kept isLocal_readPrompts fun _ _ hs => hs
  exact hitems.bind fun _ => .pure _

theorem isLocal_find? {α : Type} (items : Collection.Items α) (id : Value) :
    FailsBy IsLocal (find? items id) :=
  .ite (.ok _) (FailsBy.error_iff.2 rfl)

theorem locally_getRecipe (id : Value) : Locally J (getRecipe id) := by
  unfold getRecipe
  refine locally_recipeItems.bind fun items => ?_
  exact Work.Fails.bind (.attempt (isLocal_find? items id)) fun _ => .pure _

theorem locally_recipePath (id : Value) : Locally J (recipePath id) := by
  unfold recipePath
  refine locally_recipeItems.bind fun items => ?_
  exact Work.Fails.bind (.attempt (isLocal_find? items id)) fun _ => .pure _

theorem locally_listRecipes : Locally J listRecipes := by
  refine locally_recipeItems.bind fun items => .attempt ?_
  unfold ids
  split
  · exact .ok _
  · exact FailsBy.error_iff.2 rfl

theorem isLocal_projectDirs (settings : Settings) : FailsBy IsLocal settings.projectDirs := by
  refine (settings.isLocal_dirPath _).bind fun projects => .mapM fun source _ => ?_
  unfold Settings.sourceDir
  split
  · exact .ok _
  · exact FailsBy.error_iff.2 rfl

theorem fails_findProjectDir {I : Store → Prop} (id : Value) :
    Work.Fails IsLocal I (findProjectDir id) := by
  unfold findProjectDir
  refine Work.Fails.state.bind fun store => ?_
  refine Work.Fails.bind (.attempt (isLocal_projectDirs _)) fun dirs => ?_
  split
  · exact .attempt (.findM? fun dir _ =>
      (Manifests.isLocal_firstFile? _ _ _).bind fun _ => .ok _)
  · exact .ite (fun _ => .pure _) fun _ => .throw rfl

theorem locally_loadFeatures (project : Value) : Locally J (loadFeatures project) := by
  have hfiles (tree : Tree) (dir : Path) : FailsBy IsLocal (featureFiles tree dir) :=
    (tree.isLocal_subdirectories _).bind fun dirs =>
      .filterMapM fun _ _ => Manifests.isLocal_firstFile? _ _ _
  have hadd (features : List Feature) (entry : Path × Value) :
      Locally J (addFeature features entry) := by
    have hparse : FailsBy IsLocal (parseFeature entry.1 entry.2) := Feature.isLocal_ofValue _
    unfold addFeature
    split
    · exact .pure _
    · rename_i fault heq
      exact .ite (fun _ => (Work.Fails.tell _).bind fun _ => .pure _)
        fun _ => .throw (hparse fault heq)
  unfold loadFeatures
  refine (fails_findProjectDir project).bind fun found => ?_
  cases found with
  | none => exact .pure _
  | some dir =>
      refine Work.Fails.state.bind fun store => ?_
      refine Work.Fails.bind (.attempt (hfiles _ _)) fun paths => ?_
      have hload := Manifests.isLocal_loadAll store.tree paths
      refine (Work.Fails.tell _).bind fun _ => Work.Fails.bind (.attempt hload) fun documents => ?_
      exact .foldlM (fun _ _ _ => hadd _ _) _

end Store

end Playbook
