import Playbook.Proofs.Work
import Playbook.Validation

/-!
# Listed manifests

The manifest files of a repository in the order in which they are checked,
each with what was found in it. To collect a repository is to check its listed
files one after the other.
-/

namespace Playbook.Validation

open Manifests (Unusable)

/-- A manifest file with what is in it; the owner is the name of a project's directory. -/
structure ListedFile where
  kind : ManifestKind
  owner : String
  path : Path
  found : Except Unusable Value

namespace ListedFile

def read (tree : Tree) (kind : ManifestKind) (owner : String) (path : Path) :
    Attempt ListedFile := do
  return ⟨kind, owner, path, ← Manifests.document tree path⟩

/-- Projects and features without an id have the names of their directories. -/
def checked (listing : ListedFile) (v : Value) : Value :=
  match listing.kind with
  | .project => completed listing.owner v
  | .feature => completed listing.path.parent.name v
  | _ => v

def checkFound (known : Option (List String)) (listing : ListedFile) (v : Value) : Checking Unit :=
  if listing.kind = .feature then checkFeature known listing.owner listing.path v
  else checkDocument listing.kind listing.path (listing.checked v) true

def checkUnusable (listing : ListedFile) (unusable : Unusable) : Checking Unit := do
  countChecked
  addError .parse (listing.kind.name ++ ":" ++ listing.path.stem) (unusable.reason listing.path)
    "Fix the YAML syntax" listing.path

def check (known : Option (List String)) (listing : ListedFile) : Checking Unit :=
  match listing.found with
  | .ok v => listing.checkFound known v
  | .error unusable => listing.checkUnusable unusable

end ListedFile

/-! ## The files of a repository -/

def directoryListings (tree : Tree) (settings : Settings) (entry : String × ManifestKind) :
    Attempt (List ListedFile) := do
  let directory ← settings.dirPath entry.1
  let skipped := if entry.2 = .prompt then Manifests.sharedDirs else []
  let paths ← Manifests.files tree directory skipped
  paths.mapM (ListedFile.read tree entry.2 "")

def projectListings (tree : Tree) (directory : Path) : Attempt (List ListedFile) := do
  let file ← Manifests.firstFile? tree directory Manifests.projectFiles
  let project ← file.toList.mapM (ListedFile.read tree .project directory.name)
  let paths ← Store.featureFiles tree directory
  let features ← paths.mapM (ListedFile.read tree .feature directory.name)
  return project ++ features

def sourceListings (tree : Tree) (source : Path) : Attempt (List ListedFile) := do
  let directories ← tree.subdirectories source
  return (← directories.mapM (projectListings tree)).flatten

def listings (tree : Tree) (settings : Settings) : Attempt (List ListedFile) := do
  let shared ← directoryKinds.mapM (directoryListings tree settings)
  let sources ← settings.projectDirs
  let projects ← sources.mapM (sourceListings tree)
  return shared.flatten ++ projects.flatten

/-! ## Collecting -/

variable {tree : Tree} {settings : Settings} {known : Option (List String)} {kind : ManifestKind}
  {owner : String} {α β : Type}

theorem attempt_bind {result : Attempt α} {a : α} (h : result = .ok a) (next : α → Checking β) :
    ((result : Checking α) >>= next) = next a := by
  rw [h]
  rfl

/-- Steps for what was read of some items are the steps for the items. -/
theorem forM_of_mapM {items : List α} {read : α → Attempt β} {found : List β}
    (h : items.mapM read = .ok found) {step : α → Checking Unit} {next : β → Checking Unit}
    (hstep : ∀ a ∈ items, ∀ b, read a = .ok b → step a = next b) :
    items.forM step = found.forM next := by
  induction items generalizing found with
  | nil =>
      cases h
      rfl
  | cons a items ih =>
      rw [List.mapM_cons] at h
      obtain ⟨b, hb, h⟩ := Attempt.of_bind_ok h
      obtain ⟨rest, hrest, h⟩ := Attempt.of_bind_ok h
      cases h
      change (step a >>= fun _ => items.forM step) = (next b >>= fun _ => rest.forM next)
      rw [hstep a List.mem_cons_self b hb,
        ih hrest fun other hother => hstep other (List.mem_cons_of_mem _ hother)]

theorem forM_flatten (groups : List (List α)) (step : α → Checking Unit) :
    groups.flatten.forM step = groups.forM fun group => group.forM step := by
  induction groups with
  | nil => rfl
  | cons group groups ih =>
      change forM (group ++ groups.flatten) step =
        (group.forM step >>= fun _ => groups.forM fun group => group.forM step)
      rw [List.forM_append, ← ih]
      rfl

namespace ListedFile

/-- What a file holds is checked if it can be used, and else reported. -/
theorem load_of_read {path : Path} {listing : ListedFile}
    (h : read tree kind owner path = .ok listing)
    {next : Value → Checking Unit} (hnext : ∀ v, next v = listing.checkFound known v) :
    (do
      match ← load tree kind path with
      | some v => next v
      | none => pure ()) = listing.check known := by
  obtain ⟨found, hfound, h⟩ := Attempt.of_bind_ok h
  cases h
  have hload : load tree kind path = _ := attempt_bind hfound _
  rw [hload]
  cases found with
  | ok v => exact hnext v
  | error unusable => rfl

end ListedFile

theorem collectDirectory_eq {entry : String × ManifestKind} {found : List ListedFile}
    (hkind : entry.2 ≠ .project ∧ entry.2 ≠ .feature)
    (h : directoryListings tree settings entry = .ok found) (known : Option (List String)) :
    collectDirectory tree settings entry = found.forM (ListedFile.check known) := by
  obtain ⟨directory, hdirectory, h⟩ := Attempt.of_bind_ok h
  obtain ⟨paths, hpaths, h⟩ := Attempt.of_bind_ok h
  have hcollect : collectDirectory tree settings entry = _ :=
    (attempt_bind hdirectory _).trans (attempt_bind hpaths _)
  rw [hcollect]
  refine forM_of_mapM h fun path _ listing hread => ListedFile.load_of_read hread fun v => ?_
  obtain ⟨found, -, hread⟩ := Attempt.of_bind_ok hread
  cases hread
  obtain ⟨name, kind⟩ := entry
  cases kind with
  | project => exact absurd rfl hkind.1
  | feature => exact absurd rfl hkind.2
  | _ => rfl

theorem collectProject_eq {directory : Path} {found : List ListedFile}
    (h : projectListings tree directory = .ok found) (known : Option (List String)) :
    collectProject tree known directory = found.forM (ListedFile.check known) := by
  obtain ⟨file, hfile, h⟩ := Attempt.of_bind_ok h
  obtain ⟨project, hproject, h⟩ := Attempt.of_bind_ok h
  obtain ⟨paths, hpaths, h⟩ := Attempt.of_bind_ok h
  obtain ⟨features, hfeatures, h⟩ := Attempt.of_bind_ok h
  cases h
  have hrest : (do
      let paths ← (Store.featureFiles tree directory : Attempt (List Path))
      paths.forM fun path => do
        match ← load tree .feature path with
        | some document => checkFeature known directory.name path document
        | none => pure ()) = features.forM (ListedFile.check known) := by
    refine (attempt_bind hpaths _).trans (forM_of_mapM hfeatures fun path _ listing hread =>
      ListedFile.load_of_read hread fun v => ?_)
    obtain ⟨found, -, hread⟩ := Attempt.of_bind_ok hread
    cases hread
    rfl
  have hcollect : collectProject tree known directory = _ := attempt_bind hfile _
  rw [hcollect]
  cases file with
  | none =>
      cases hproject
      exact hrest
  | some path =>
      rw [Option.toList, List.mapM_cons] at hproject
      obtain ⟨listing, hread, hproject⟩ := Attempt.of_bind_ok hproject
      cases hproject
      obtain ⟨found, hfound, hread⟩ := Attempt.of_bind_ok hread
      cases hread
      have hload : load tree .project path = _ := attempt_bind hfound _
      dsimp only
      rw [hload]
      change _ = (ListedFile.check known _ >>= fun _ => features.forM (ListedFile.check known))
      rw [← hrest]
      cases found <;> rfl

theorem collectSource_eq {source : Path} {found : List ListedFile}
    (h : sourceListings tree source = .ok found) (known : Option (List String)) :
    (do
      let directories ← (tree.subdirectories source : Attempt (List Path))
      directories.forM (collectProject tree known)) = found.forM (ListedFile.check known) := by
  obtain ⟨directories, hdirectories, h⟩ := Attempt.of_bind_ok h
  obtain ⟨groups, hgroups, h⟩ := Attempt.of_bind_ok h
  cases h
  rw [forM_flatten]
  exact (attempt_bind hdirectories _).trans
    (forM_of_mapM hgroups fun _ _ _ hproject => collectProject_eq hproject known)

/-- To collect a repository is to check its listed files one after the other. -/
theorem collect_eq {found : List ListedFile} (h : listings tree settings = .ok found)
    (known : Option (List String)) :
    collect tree settings known = found.forM (ListedFile.check known) := by
  obtain ⟨shared, hshared, h⟩ := Attempt.of_bind_ok h
  obtain ⟨sources, hsources, h⟩ := Attempt.of_bind_ok h
  obtain ⟨projects, hprojects, h⟩ := Attempt.of_bind_ok h
  cases h
  have hkinds : ∀ entry ∈ directoryKinds, entry.2 ≠ .project ∧ entry.2 ≠ .feature := by decide
  have hfirst : directoryKinds.forM (collectDirectory tree settings) =
      shared.flatten.forM (ListedFile.check known) := by
    rw [forM_flatten]
    exact forM_of_mapM hshared fun entry hentry _ hdirectory =>
      collectDirectory_eq (hkinds entry hentry) hdirectory known
  have hsecond : (sources.forM fun source => do
      let directories ← (tree.subdirectories source : Attempt (List Path))
      directories.forM (collectProject tree known)) =
        projects.flatten.forM (ListedFile.check known) := by
    rw [forM_flatten]
    exact forM_of_mapM hprojects fun _ _ _ hsource => collectSource_eq hsource known
  rw [collect, hfirst, attempt_bind hsources, hsecond]
  exact List.forM_append.symm

end Playbook.Validation
