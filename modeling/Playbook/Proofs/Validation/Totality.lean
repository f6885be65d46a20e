import Playbook.Proofs.Validation.Features
import Playbook.Proofs.Validation.Gathering
import Playbook.Proofs.Validation.Soundness

/-!
# Reports on all repositories

Once the files of a repository have been read, the check of it ends in a report
in which every rejected file has an error, or in a fault of type: exactly if the
documents cannot be compared with each other.
-/

namespace Playbook

open Validation

/-- The documents of the tree have numbers and lists of which a text can be made. -/
def Tree.ShortDocuments (tree : Tree) : Prop :=
  ∀ path v, Manifests.document tree path = .ok (.ok v) → v.Short

namespace Validation

variable {tree : Tree} {settings : Settings} {known : Option (List String)}
  {found : List ListedFile} {c : Check}

/-! ## Documents that can be compared -/

/-- Whatever is gone through is a list, and whatever is looked up is a possible key. -/
structure Comparable (known : Option (List String)) (found : List ListedFile) : Prop where
  tools : ∀ listing ∈ found, listing.Keyed known
  rulepacks : ∀ entry ∈ registered found .rulepack, Listable entry.2.value "extends"
  agents : ∀ entry ∈ registered found .agent, Keyed entry.2.value "rulepacks"
  recipes : ∀ entry ∈ registered found .recipe, RecipeComparable known entry.2.value
  projects : ∀ entry ∈ registered found .project, ProjectComparable entry.2.value
  references : ∀ recipe ∈ featureRecipes found,
    (field recipe "id").isGiven = true → (field recipe "id").canBeKey = true

/-! ## What was listed -/

/-- Every listed file was read from the tree. -/
def ReadFrom (tree : Tree) (found : List ListedFile) : Prop :=
  ∀ listing ∈ found, Manifests.document tree listing.path = .ok listing.found

theorem ReadFrom.append {others : List ListedFile} (h : ReadFrom tree found)
    (h' : ReadFrom tree others) : ReadFrom tree (found ++ others) := by
  intro listing hlisting
  rcases List.mem_append.1 hlisting with hlisting | hlisting
  · exact h listing hlisting
  · exact h' listing hlisting

theorem readFrom_of_mapM {kind : ManifestKind} {owner : String} {paths : List Path}
    (h : paths.mapM (ListedFile.read tree kind owner) = .ok found) : ReadFrom tree found := by
  intro listing hlisting
  obtain ⟨path, -, hread⟩ := exists_left_of_mem (Attempt.of_mapM_ok h) hlisting
  obtain ⟨content, hcontent, hread⟩ := Attempt.of_bind_ok hread
  cases hread
  exact hcontent

theorem readFrom_flatten {α : Type} {items : List α} {list : α → Attempt (List ListedFile)}
    {groups : List (List ListedFile)} (h : items.mapM list = .ok groups)
    (hlist : ∀ item group, list item = .ok group → ReadFrom tree group) :
    ReadFrom tree groups.flatten := by
  intro listing hlisting
  obtain ⟨group, hgroup, hlisting⟩ := List.mem_flatten.1 hlisting
  obtain ⟨item, -, hitem⟩ := exists_left_of_mem (Attempt.of_mapM_ok h) hgroup
  exact hlist item group hitem listing hlisting

theorem readFrom_directory {entry : String × ManifestKind}
    (h : directoryListings tree settings entry = .ok found) : ReadFrom tree found := by
  obtain ⟨directory, -, h⟩ := Attempt.of_bind_ok h
  obtain ⟨paths, -, h⟩ := Attempt.of_bind_ok h
  exact readFrom_of_mapM h

theorem readFrom_project {directory : Path} (h : projectListings tree directory = .ok found) :
    ReadFrom tree found := by
  obtain ⟨file, -, h⟩ := Attempt.of_bind_ok h
  obtain ⟨project, hproject, h⟩ := Attempt.of_bind_ok h
  obtain ⟨paths, -, h⟩ := Attempt.of_bind_ok h
  obtain ⟨features, hfeatures, h⟩ := Attempt.of_bind_ok h
  cases h
  exact (readFrom_of_mapM hproject).append (readFrom_of_mapM hfeatures)

theorem readFrom_source {source : Path} (h : sourceListings tree source = .ok found) :
    ReadFrom tree found := by
  obtain ⟨directories, -, h⟩ := Attempt.of_bind_ok h
  obtain ⟨groups, hgroups, h⟩ := Attempt.of_bind_ok h
  cases h
  exact readFrom_flatten hgroups fun _ _ => readFrom_project

theorem readFrom_listings (h : listings tree settings = .ok found) : ReadFrom tree found := by
  obtain ⟨shared, hshared, h⟩ := Attempt.of_bind_ok h
  obtain ⟨sources, -, h⟩ := Attempt.of_bind_ok h
  obtain ⟨projects, hprojects, h⟩ := Attempt.of_bind_ok h
  cases h
  exact (readFrom_flatten hshared fun _ _ => readFrom_directory).append
    (readFrom_flatten hprojects fun _ _ => readFrom_source)

theorem ReadFrom.regular (h : ReadFrom tree found) (proper : tree.ProperDocuments)
    (short : tree.ShortDocuments) : ∀ listing ∈ found, listing.Regular := by
  intro listing hlisting v hv
  have hdocument := h listing hlisting
  rw [hv] at hdocument
  exact ⟨Manifests.isMapping_of_document hdocument, proper _ v hdocument, short _ v hdocument⟩

/-! ## What was registered -/

theorem ListedFile.short_checked {listing : ListedFile} {v : Value} (short : v.Short) :
    (listing.checked v).Short := by
  rw [checked]
  split
  · exact short_completed short _
  · exact short_completed short _
  · exact short

theorem shortDocuments_register {kind : ManifestKind} {documents : Documents} {listing : ListedFile}
    (regular : listing.Regular) (h : ShortDocuments documents) :
    ShortDocuments (listing.register kind documents) := by
  rw [ListedFile.register]
  split
  · rename_i v hv
    split
    · split
      · rw [withNew]
        split
        · intro entry hentry
          rcases List.mem_append.1 hentry with hentry | hentry
          · exact h entry hentry
          · obtain rfl := List.mem_singleton.1 hentry
            exact ListedFile.short_checked (regular v hv).2.2
        · exact h
      · exact h
    · exact h
  · exact h

theorem shortDocuments_registered (regular : ∀ listing ∈ found, listing.Regular)
    (kind : ManifestKind) : ShortDocuments (registered found kind) := by
  refine List.foldlRecOn found _ (fun entry hentry => absurd hentry List.not_mem_nil)
    fun documents h listing hlisting => shortDocuments_register (regular listing hlisting) h

theorem short_featureRecipe (regular : ∀ listing ∈ found, listing.Regular) {recipe : Value}
    (h : recipe ∈ featureRecipes found) : recipe.Short := by
  obtain ⟨listing, hlisting, hrecipe⟩ := List.mem_filterMap.1 h
  rw [ListedFile.recipe?] at hrecipe
  split at hrecipe
  · rename_i v hv
    split at hrecipe
    · cases hrecipe
      exact (regular listing hlisting v hv).2.2.field "recipe"
    · cases hrecipe
  · cases hrecipe

theorem Gathered.later {c' : Check} (gathered : Gathered found c) (hlater : Later c c') :
    Gathered found c' := by
  refine ⟨fun kind => ?_, ?_, fun listing hlisting hrejected => ?_⟩
  · rw [hlater.keeps.1, gathered.documents]
  · rw [hlater.keeps.2, gathered.references]
  · refine (gathered.noticed listing hlisting hrejected).of_subset hlater.errors ?_
    rw [hlater.keeps.1]
    exact List.Subset.refl _

/-! ## The whole check -/

section

variable (regular : ∀ listing ∈ found, listing.Regular)

include regular

theorem settles_references (gathered : Gathered found c) :
    Settles c checkReferences (∀ recipe ∈ featureRecipes found,
      (field recipe "id").isGiven = true → (field recipe "id").canBeKey = true)
      fun _ c' => Later c c' := by
  have hreferences (P : Value → Prop) : (∀ reference ∈ c.references, P reference.recipe) ↔
      ∀ recipe ∈ featureRecipes found, P (field recipe "id") := by
    rw [← List.forall_mem_map (f := FeatureReference.recipe), gathered.references,
      List.forall_mem_map]
  have hshort : ∀ reference ∈ c.references, reference.recipe.Short :=
    (hreferences Value.Short).2 fun recipe hrecipe =>
      (short_featureRecipe regular hrecipe).field "id"
  exact (settles_checkReferences hshort).iff
    (hreferences fun x => x.isGiven = true → x.canBeKey = true)

/-- The comparison ends with an error for every project that fills lists that exclude each other. -/
theorem settles_projects (gathered : Gathered found c) :
    Settles c checkProjects
      (∀ entry ∈ registered found .project, ProjectComparable entry.2.value)
      fun _ c' => Gathered found c' ∧
        ∀ listing ∈ found, listing.Rejected → Reported listing.path c' := by
  have hshort := shortDocuments_registered regular .project
  rw [← gathered.documents .project] at hshort ⊢
  refine (settles_checkProjects hshort).imp ?_
  rintro _ c' ⟨hlater, hconflicts⟩
  refine ⟨gathered.later hlater, fun listing hlisting hrejected => ?_⟩
  rcases gathered.noticed listing hlisting hrejected with
    hreported | ⟨entry, hentry, hpath, hconflict⟩
  · exact hreported.of_subset hlater.errors
  · exact hpath ▸ hconflicts entry hentry hconflict

theorem settles_compare (gathered : Gathered found c) (known : Option (List String)) :
    Settles c (do
      checkRulepacks
      checkAgents
      checkRecipes known
      checkProjects
      checkReferences)
      ((∀ entry ∈ registered found .rulepack, Listable entry.2.value "extends") ∧
        (∀ entry ∈ registered found .agent, Keyed entry.2.value "rulepacks") ∧
        (∀ entry ∈ registered found .recipe, RecipeComparable known entry.2.value) ∧
        (∀ entry ∈ registered found .project, ProjectComparable entry.2.value) ∧
        ∀ recipe ∈ featureRecipes found,
          (field recipe "id").isGiven = true → (field recipe "id").canBeKey = true)
      fun _ c' => ∀ listing ∈ found, listing.Rejected → Reported listing.path c' := by
  have hshort {c : Check} (gathered : Gathered found c) (kind : ManifestKind) :
      ShortDocuments (c.documents kind) := by
    rw [gathered.documents]
    exact shortDocuments_registered regular kind
  have hrulepacks {c : Check} (gathered : Gathered found c) := (settles_checkRulepacks c).mono
    (T := fun _ c' => Gathered found c') Iff.rfl fun _ _ => gathered.later
  have hagents {c : Check} (gathered : Gathered found c) :=
    (settles_checkAgents (hshort gathered .agent)).mono
      (T := fun _ c' => Gathered found c') Iff.rfl fun _ _ => gathered.later
  have hrecipes {c : Check} (gathered : Gathered found c) :=
    (settles_checkRecipes known (hshort gathered .recipe)).mono
      (T := fun _ c' => Gathered found c') Iff.rfl fun _ _ => gathered.later
  rw [← gathered.documents .rulepack]
  refine (hrulepacks gathered).bind fun _ c₁ gathered => ?_
  rw [← gathered.documents .agent]
  refine (hagents gathered).bind fun _ c₂ gathered => ?_
  rw [← gathered.documents .recipe]
  refine (hrecipes gathered).bind fun _ c₃ gathered => ?_
  refine (settles_projects regular gathered).bind fun _ c₄ hprojects => ?_
  refine (settles_references regular hprojects.1).imp fun _ c₅ hlater => ?_
  exact fun listing hlisting hrejected =>
    (hprojects.2 listing hlisting hrejected).of_subset hlater.errors

end

end Validation

/-- A repository of an agent with a purpose that may not be a text, and some rulepacks. -/
def agentTree (purpose rulepacks : Value) : Tree := .directory
  [("04_agents", .directory [("writer.yml", Store.ofFields
      [("id", .text "writer"), ("purpose", purpose), ("rulepacks", rulepacks)])])]

theorem agentTree_holds {purpose rulepacks : Value} {P : Value → Prop}
    (h : P (.mapping [(.text "id", .text "writer"), (.text "purpose", purpose),
      (.text "rulepacks", rulepacks)])) : (agentTree purpose rulepacks).Holds P :=
  ⟨⟨⟨_, rfl, h⟩, trivial⟩, trivial⟩

theorem properShort_agentTree (purpose rulepacks : Value)
    (hpurpose : purpose.Proper ∧ purpose.Short) (hrulepacks : rulepacks.Proper ∧ rulepacks.Short) :
    (agentTree purpose rulepacks).ProperDocuments ∧
      (agentTree purpose rulepacks).ShortDocuments := by
  have hall {path : Path} {v : Value}
      (hdocument : Manifests.document (agentTree purpose rulepacks) path = .ok (.ok v)) :
      v.Proper ∧ v.Short :=
    (agentTree_holds (P := fun v => v.Proper ∧ v.Short)
      ⟨by simp [Value.Proper, Value.ProperEntries, hpurpose.1, hrulepacks.1],
        by simp [Value.Short, Value.EntriesShort, hpurpose.2, hrulepacks.2]⟩).of_document hdocument
  exact ⟨fun _ _ hdocument => (hall hdocument).1, fun _ _ hdocument => (hall hdocument).2⟩

def rejects (tree : Tree) : Bool :=
  match listings tree Store.shopSettings with
  | .ok found => found.any fun listing =>
      decide (listing.Rejected ∧ listing.path.text = "/04_agents/writer.yml")
  | .error _ => false

theorem exists_rejected {tree : Tree} (h : rejects tree = true) :
    ∃ found, listings tree Store.shopSettings = .ok found ∧
      ∃ listing ∈ found, listing.Rejected ∧ listing.path.text = "/04_agents/writer.yml" := by
  rw [rejects] at h
  split at h
  · rename_i found hfound
    obtain ⟨listing, hlisting, h⟩ := List.any_eq_true.1 h
    exact ⟨found, hfound, listing, hlisting, of_decide_eq_true h⟩
  · cases h

def isReported (tree : Tree) : Bool :=
  match validate tree Store.shopSettings none with
  | .ok _ => true
  | .error _ => false

end Playbook
