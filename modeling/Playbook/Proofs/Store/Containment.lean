import Playbook.Proofs.Store.Features
import Playbook.Proofs.Store.Kinds

/-!
# Files that cannot be used

One more file of which no manifest comes. Reading goes on without it, with one
more warning, unless the file is one of those that escape: then nothing at all
is read.
-/

namespace Playbook.Store

open Work

/-! ## One more file -/

section

variable {α : Type} (work : Work Store α) (store store' : Store)

def Gives : Prop := ∃ a t log, exec work (store, []) = (.ok a, t, log)

def Raises : Prop := ∃ fault t log, exec work (store, []) = (.error fault, t, log)

/-- A work gives what it gave before, with one more warning that a file was passed over. -/
def PassesOver (kind : String) (path : Path) : Prop :=
  ∃ a t t' log log' entry, exec work (store, []) = (.ok a, t, log) ∧
    exec work (store', []) = (.ok a, t', log') ∧ Collection.Skips kind path entry ∧
    Inserted entry log log'

variable {work store store'}

theorem PassesOver.gives {kind : String} {path : Path} (h : PassesOver work store store' kind path) :
    Gives work store ∧ Gives work store' := by
  obtain ⟨a, t, t', log, log', entry, hbefore, hafter, -, -⟩ := h
  exact ⟨⟨a, t, log, hbefore⟩, ⟨a, t', log', hafter⟩⟩

theorem not_gives_of_raises (h : Raises work store) : ¬ Gives work store := by
  obtain ⟨fault, t, log, hraised⟩ := h
  rintro ⟨a, t', log', hgiven⟩
  cases hraised.symm.trans hgiven

end

variable {tree : Tree} {settings : Settings} {f : File}

theorem items_withFile (proper : tree.Proper) (kind : Kind) {directory : Path}
    {entries : List (String × Tree)} {names : List String}
    (hdirectory : settings.dirPath kind.name = .ok directory)
    (hask : tree.ask directory = .ok (some (.directory entries)))
    (room : (Tree.directory entries).HasRoom names) (plain : ".." ∉ names) :
    let store := ofSettings tree settings
    let store' := ofSettings (tree.withFile directory names f) settings
    let path := Manifests.pathBelow directory names
    Collection.Useless store'.tree (Collection.keyed kind.id) (kind.parse store') path →
      (PassesOver kind.items store store' kind.name path ↔
        Gives kind.items store ∧ Manifests.isListed kind.skipped names ∧
          ¬ Collection.Escapes store'.tree (Collection.keyed kind.id) (kind.parse store') path) ∧
      (Gives kind.items store → Manifests.isListed kind.skipped names →
        Collection.Escapes store'.tree (Collection.keyed kind.id) (kind.parse store') path →
          Raises kind.items store') := by
  intro store store' path useless
  have hparse : kind.parse store = kind.parse store' := by
    cases kind <;> rfl
  have hread (other : Tree) : (ofSettings other settings).read kind.name kind.id
      (kind.parse store') kind.skipped =
        Collection.read other directory kind.name kind.id (kind.parse store') kind.skipped := by
    unfold Store.read
    rw [show (ofSettings other settings).settings = settings from rfl, hdirectory]
    rfl
  obtain ⟨t, hbefore⟩ := kind.exec_items tree settings
  obtain ⟨t', hafter⟩ := kind.exec_items (tree.withFile directory names f) settings
  rw [show kind.parse (ofSettings tree settings) = kind.parse store' from hparse, hread] at hbefore
  rw [hread] at hafter
  rcases hreading : Collection.read tree directory kind.name kind.id (kind.parse store')
    kind.skipped with ⟨log, _ | items⟩
  · rw [hreading] at hbefore
    have hraises : Raises kind.items store := ⟨_, _, _, hbefore⟩
    have hnot := not_gives_of_raises hraises
    exact ⟨⟨fun h => absurd h.gives.1 hnot, fun h => absurd h.1 hnot⟩,
      fun h => absurd h hnot⟩
  · rw [hreading] at hbefore
    have hgives : Gives kind.items store := ⟨_, _, _, hbefore⟩
    have hnew := Collection.read_withFile proper hask room plain f useless hreading
    by_cases hlisted : Manifests.isListed kind.skipped names
    · rw [if_pos hlisted] at hnew
      obtain ⟨hraised, hpassed⟩ := hnew
      have hraises (hescapes : Collection.Escapes store'.tree (Collection.keyed kind.id)
          (kind.parse store') path) : Raises kind.items store' := by
        obtain ⟨log', fault, hnew⟩ := hraised hescapes
        rw [hnew] at hafter
        exact ⟨_, _, _, hafter⟩
      refine ⟨⟨fun h => ⟨hgives, hlisted, fun hescapes => ?_⟩, fun ⟨_, _, hcontained⟩ => ?_⟩,
        fun _ _ => hraises⟩
      · exact not_gives_of_raises (hraises hescapes) h.gives.2
      · obtain ⟨entry, log', hskips, hinserted, hnew⟩ := hpassed hcontained
        rw [hnew] at hafter
        exact ⟨_, _, _, _, _, entry, hbefore, hafter, hskips, hinserted⟩
    · rw [if_neg hlisted] at hnew
      rw [hnew] at hafter
      refine ⟨⟨fun h => ?_, fun h => absurd h.2.1 hlisted⟩, fun _ h => absurd h hlisted⟩
      obtain ⟨a, s, s', log₁, log₂, entry, h, h', -, hinserted⟩ := h
      cases hbefore.symm.trans h
      cases hafter.symm.trans h'
      exact absurd rfl hinserted.ne

theorem loadFeatures_withFile {project : Value} {dir directory : Path} {dirs : List Path}
    {inner : List (String × Tree)} {name : String}
    (hdir : (ofSettings tree settings).projectDir? project = .ok (some dir))
    (site : Manifests.Site tree (dir.child "features") dirs directory inner name)
    (hname : name ∉ Manifests.projectFiles) :
    let store := ofSettings tree settings
    let store' := ofSettings (tree.withFile directory [name] f) settings
    let path := Manifests.pathBelow directory [name]
    Collection.Useless store'.tree (fun _ => true) parseFeature path →
      (PassesOver (loadFeatures project) store store' "feature" path ↔
        Gives (loadFeatures project) store ∧ Manifests.Alone tree directory name ∧
          ¬ Collection.Escapes store'.tree (fun _ => true) parseFeature path) ∧
      (Gives (loadFeatures project) store → Manifests.Alone tree directory name →
        Collection.Escapes store'.tree (fun _ => true) parseFeature path →
          Raises (loadFeatures project) store') := by
  intro store store' path useless
  have hraises (hgives : Gives (loadFeatures project) store)
      (halone : Manifests.Alone tree directory name)
      (hescapes : Collection.Escapes store'.tree (fun _ => true) parseFeature path) :
      Raises (loadFeatures project) store' := by
    obtain ⟨features, t, log, h⟩ := hgives
    obtain ⟨fault, s, hraised⟩ := loadFeatures_of_escapes site hname hdir halone hescapes h
    exact ⟨fault, s.1, s.2, hraised⟩
  refine ⟨⟨fun h => ?_, fun ⟨hgives, halone, hcontained⟩ => ?_⟩, hraises⟩
  · have halone : Manifests.Alone tree directory name := by
      by_contra halone
      obtain ⟨a, t, t', log, log', entry, hbefore, hafter, -, hinserted⟩ := h
      have hlength := length_loadFeatures_of_not_alone site hname f hdir halone hbefore hafter
      have hmore := hinserted.length_eq
      omega
    exact ⟨h.gives.1, halone,
      fun hescapes => not_gives_of_raises (hraises h.gives.1 halone hescapes) h.gives.2⟩
  · obtain ⟨features, t, log, h⟩ := hgives
    obtain ⟨entry, log', hskips, hinserted, hpassed⟩ :=
      loadFeatures_of_not_escapes site hname hdir halone useless hcontained h
    exact ⟨_, _, _, _, _, entry, h, hpassed, hskips, hinserted⟩

def smallSettings : Settings where
  root := ⟨.root, []⟩
  directories := [("agents", "agents"), ("projects", "projects")]
  outputDir := ""
  docsDir := ""
  logsDir := ""
  projectSources := [.text "local"]
  defaultTools := []
  maxWorkers := 1
  sources := []

def writer : Tree := .file ⟨.document (.mapping [(.text "id", .text "writer")]), false⟩

def login : Tree := .file ⟨.document (.mapping [(.text "name", .text "Login")]), false⟩

/-- An agent, and a project with a feature and an empty directory beside it. -/
def smallTree : Tree := .directory
  [("agents", .directory [("writer.yml", writer)]),
   ("projects", .directory [("local", .directory [("site", .directory
     [("project.yml", .file ⟨.document (.mapping []), false⟩),
      ("features", .directory
        [("login", .directory [("feature.yml", login)]), ("search", .directory [])])])])])]

theorem smallTree_proper : smallTree.Proper := by
  simp [smallTree, writer, login, Tree.Proper, Tree.ProperEntries]

theorem gives_of_toBool {α : Type} {work : Work Store α} {store : Store}
    (h : (exec work (store, [])).1.toBool = true) : Gives work store := by
  rcases hwork : exec work (store, []) with ⟨_ | a, t, log⟩
  · rw [hwork] at h
    cases h
  · exact ⟨a, t, log, hwork⟩

end Playbook.Store
