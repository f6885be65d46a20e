import Playbook.Proofs.Store.Kinds
import Playbook.Proofs.Store.Reading
import Playbook.Proofs.Validation.References

/-!
# Collections of a repository that was checked

From a repository without errors every listed file is read: each document
gives a manifest, and no two of them have the same id.
-/

namespace Playbook

open Validation (Document Documents Listed Lists Collected field skippedDirs)

/-! ## Adding documents -/

namespace Collection

variable {α : Type} (kind : String) {id : α → Value} {parse : Path → Value → Attempt α}
  {R : Value → α → Prop}

/-- An item that was read from a document. -/
structure Holds (R : Value → α → Prop) (entry : String × Document) (item : Value × Path × α) :
    Prop where
  key : item.1 = .text entry.1
  place : item.2.1 = entry.2.path
  reads : R entry.2.value item.2.2

/-- A document from which a manifest with its id can be read. -/
def Readable (id : α → Value) (parse : Path → Value → Attempt α) (R : Value → α → Prop)
    (entry : String × Document) : Prop :=
  ∃ a, parse entry.2.path entry.2.value = .ok a ∧ id a = .text entry.1 ∧ R entry.2.value a

theorem addDocument_of_new {entry : String × Document} (h : Readable id parse R entry)
    {items : Items α} (hnew : ∀ item ∈ items, ∃ own, item.1 = .text own ∧ own ≠ entry.1) :
    ∃ item, addDocument kind id parse items entry.2.path entry.2.value =
      ([], .ok (items ++ [item])) ∧ Holds R entry item := by
  obtain ⟨a, hparse, hid, hreads⟩ := h
  refine ⟨(.text entry.1, entry.2.path, a), ?_, ⟨rfl, rfl, hreads⟩⟩
  have hfree : (items.any fun item => item.1.same (.text entry.1)) = false := by
    rw [List.any_eq_false]
    intro item hitem
    obtain ⟨own, hown, hne⟩ := hnew item hitem
    rw [hown, Value.same, Value.samePlain] <;> simp [hne]
  simp only [addDocument, hparse, hid, hfree]
  rfl

/-- Documents with different ids are all added. -/
theorem addDocuments_of_new {documents : Documents}
    (h : ∀ entry ∈ documents, Readable id parse R entry) (nodup : (documents.map (·.1)).Nodup)
    (items : Items α)
    (hnew : ∀ item ∈ items, ∃ own, item.1 = .text own ∧ own ∉ documents.map (·.1)) :
    ∃ added, addDocuments kind id parse items (documents.map fun entry =>
      (entry.2.path, entry.2.value)) = ([], .ok (items ++ added)) ∧
        List.Forall₂ (Holds R) documents added := by
  induction documents generalizing items with
  | nil => exact ⟨[], by rw [List.append_nil]; rfl, .nil⟩
  | cons entry documents ih =>
      rw [List.map_cons, List.nodup_cons] at nodup
      have hfirst : ∀ item ∈ items, ∃ own, item.1 = .text own ∧ own ≠ entry.1 := by
        intro item hitem
        obtain ⟨own, hown, hmem⟩ := hnew item hitem
        exact ⟨own, hown, fun heq => hmem (by simp [heq])⟩
      obtain ⟨item, hadd, hholds⟩ :=
        addDocument_of_new kind (h entry List.mem_cons_self) hfirst
      have hrest : ∀ other ∈ items ++ [item],
          ∃ own, other.1 = .text own ∧ own ∉ documents.map (·.1) := by
        intro other hother
        rcases List.mem_append.1 hother with hother | hother
        · obtain ⟨own, hown, hmem⟩ := hnew other hother
          exact ⟨own, hown, fun hlater => hmem (List.mem_cons_of_mem _ hlater)⟩
        · rw [List.mem_singleton.1 hother]
          exact ⟨entry.1, hholds.key, nodup.1⟩
      obtain ⟨added, hadded, hall⟩ :=
        ih (fun other hother => h other (List.mem_cons_of_mem _ hother)) nodup.2 _ hrest
      refine ⟨item :: added, ?_, .cons hholds hall⟩
      rw [List.map_cons, addDocuments]
      simp only [hadd, hadded, List.append_assoc, List.singleton_append]
      rfl

theorem loadAll_of_listed {tree : Tree} {manifest : ManifestKind} {paths : List Path}
    {documents : Documents} (h : List.Forall₂ (Listed tree manifest) paths documents) :
    Manifests.loadAll tree paths =
      ([], .ok (documents.map fun entry => (entry.2.path, entry.2.value))) := by
  have hloaded : ∀ path ∈ paths, ∃ v, Manifests.document tree path = .ok (.ok v) := by
    induction h with
    | nil => simp
    | cons hlisted _ ih =>
        intro path hpath
        rcases List.mem_cons.1 hpath with rfl | hpath
        · exact ⟨_, hlisted.loaded⟩
        · exact ih path hpath
  rw [Manifests.loadAll_eq fun path hpath => by
    obtain ⟨v, hv⟩ := hloaded path hpath
    exact ⟨_, hv⟩]
  congr 2
  · rw [List.filterMap_eq_nil_iff]
    intro path hpath
    obtain ⟨v, hv⟩ := hloaded path hpath
    simp [Manifests.skipped?, hv]
  · clear hloaded
    induction h with
    | nil => rfl
    | cons hlisted _ ih =>
        rw [List.filterMap_cons_some (b := (_, _)), ih, List.map_cons]
        rw [Manifests.loaded?, hlisted.loaded, hlisted.place]

theorem places_of_listed {tree : Tree} {manifest : ManifestKind} {paths : List Path}
    {documents : Documents} {items : Items α}
    (hlisted : List.Forall₂ (Listed tree manifest) paths documents)
    (hholds : List.Forall₂ (Holds R) documents items) : items.map (·.2.1) = paths := by
  induction hholds generalizing paths with
  | nil =>
      cases hlisted
      rfl
  | cons hitem _ ih =>
      cases hlisted with
      | cons hentry hrest => rw [List.map_cons, hitem.place, hentry.place, ih hrest]

/-- Files with documents of different ids are read without a message. -/
theorem read_of_lists {tree : Tree} {manifest : ManifestKind} {directory : Path}
    {skipped : List String} {paths : List Path} {documents : Documents}
    (hfiles : Manifests.files tree directory skipped = .ok paths)
    (hlists : Lists tree manifest paths documents)
    (h : ∀ entry ∈ documents, Readable id parse R entry) :
    ∃ items, read tree directory kind id parse skipped = ([], .ok items) ∧
      List.Forall₂ (Holds R) documents items := by
  obtain ⟨items, hitems, hall⟩ := addDocuments_of_new kind h hlists.2 [] (by simp)
  refine ⟨items, ?_, hall⟩
  rw [read_eq hfiles (loadAll_of_listed hlists.1), hitems]
  rfl

end Collection

/-! ## The four collections -/

namespace Store

namespace Kind

def manifest : Kind → ManifestKind
  | .rulepacks => .rulepack
  | .agents => .agent
  | .prompts => .prompt
  | .recipes => .recipe

/-- What the reader of a kind takes from a document. -/
def Reads : (kind : Kind) → Value → kind.Record → Prop
  | .rulepacks => Rulepack.Reads
  | .agents => Agent.Reads
  | .prompts => Prompt.Reads
  | .recipes => Recipe.Reads

/-- The numbers that the reader of a kind turns into texts are short enough. -/
def Showable : Kind → Value → Prop
  | .rulepacks | .agents => fun _ => True
  | .prompts => Prompt.Showable
  | .recipes => Recipe.Showable

theorem mem_directoryKinds (kind : Kind) :
    (kind.name, kind.manifest) ∈ Validation.directoryKinds := by
  cases kind <;> decide

theorem skippedDirs_manifest (kind : Kind) : skippedDirs kind.manifest = kind.skipped := by
  cases kind <;> rfl

theorem exists_parse (store : Store) (kind : Kind) (path : Path) {v : Value} (proper : v.Proper)
    (h : kind.manifest.schema.schema.Accepts v) (showable : kind.Showable v) :
    ∃ record, kind.parse store path v = .ok record ∧ kind.Reads v record := by
  cases kind with
  | rulepacks => exact Rulepack.exists_ofValue proper h
  | agents => exact Agent.exists_ofValue proper h
  | prompts => exact Prompt.exists_ofValue proper h showable _
  | recipes => exact Recipe.exists_ofValue proper h showable

theorem Reads.id {kind : Kind} {v : Value} {record : kind.Record} (h : kind.Reads v record)
    {id : String} (hid : field v "id" = .text id) : kind.id record = .text id := by
  have hown : ∃ own, own ≠ "" ∧ field v "id" = .text own ∧ kind.id record = .text own := by
    cases kind with
    | rulepacks => exact Rulepack.Reads.id h
    | agents => exact Agent.Reads.id h
    | prompts => exact Prompt.Reads.id h
    | recipes => exact Recipe.Reads.id h
  obtain ⟨own, -, hfield, hrecord⟩ := hown
  rw [hrecord, ← hfield, hid]

/-- The manifest files of a kind. -/
def Files (kind : Kind) (tree : Tree) (settings : Settings) (paths : List Path) : Prop :=
  ∃ directory, settings.dirPath kind.name = .ok directory ∧
    Manifests.files tree directory kind.skipped = .ok paths

end Kind

/-- No number that is turned into a text is too long, in any file of a manifest. -/
def ShowableDocuments (tree : Tree) (settings : Settings) : Prop :=
  ∀ (kind : Kind) (paths : List Path), kind.Files tree settings paths → ∀ path ∈ paths,
    ∀ v, Manifests.document tree path = .ok (.ok v) → kind.Showable v

/-- The items of a collection, one for each document and file, are read without a message. -/
structure Loads (store : Store) (c : Validation.Check) (kind : Kind)
    (items : Collection.Items kind.Record) : Prop where
  reading : kind.reading store = ([], .ok items)
  files : kind.Files store.tree store.settings (items.map (·.2.1))
  holds : List.Forall₂ (Collection.Holds kind.Reads) (c.documents kind.manifest) items

theorem exists_loads {store : Store} {c : Validation.Check}
    (collected : Collected store.tree store.settings c)
    (showable : ShowableDocuments store.tree store.settings) (kind : Kind) :
    ∃ items, Loads store c kind items := by
  obtain ⟨directory, paths, hdirectory, hpaths, hlists⟩ :=
    collected.reads _ kind.mem_directoryKinds
  rw [kind.skippedDirs_manifest] at hpaths
  have hreadable : ∀ entry ∈ c.documents kind.manifest,
      Collection.Readable kind.id (kind.parse store) kind.Reads entry := by
    intro entry hentry
    obtain ⟨path, hpath, hlisted⟩ := exists_left_of_mem hlists.1 hentry
    obtain ⟨record, hparse, hreads⟩ := kind.exists_parse store entry.2.path hlisted.proper
      hlisted.accepts (showable kind paths ⟨directory, hdirectory, hpaths⟩ path hpath _
        hlisted.loaded)
    exact ⟨record, hparse, hreads.id hlisted.id, hreads⟩
  obtain ⟨items, hreading, hholds⟩ := Collection.read_of_lists kind.name hpaths hlists hreadable
  have hplaces := Collection.places_of_listed hlists.1 hholds
  refine ⟨items, ?_, ⟨directory, hdirectory, hplaces ▸ hpaths⟩, hholds⟩
  rw [Kind.reading, Store.read, hdirectory]
  exact hreading

/-- The collections that have been read are what reading gives. -/
def Faithful (store : Store) : Prop :=
  ∀ (kind : Kind) (items : Collection.Items kind.Record), kind.held store = some items →
    (kind.reading store).2 = .ok items

theorem faithful_ofSettings (tree : Tree) (settings : Settings) :
    Faithful (ofSettings tree settings) := by
  intro kind items hheld
  cases kind <;> cases hheld

variable {store : Store} {c : Validation.Check} {kind : Kind}
  {items : Collection.Items kind.Record}

theorem Loads.stands (h : Loads store c kind items) (faithful : Faithful store) :
    kind.Stands store items := by
  cases hheld : kind.held store with
  | none => exact .inr ⟨hheld, h.reading⟩
  | some found =>
      have hfound := faithful kind found hheld
      rw [h.reading] at hfound
      cases hfound
      exact .inl hheld

/-- Behind a reference that is known there is an item. -/
theorem Loads.exists_item (h : Loads store c kind items) {id : String}
    (hknown : Validation.Known (c.documents kind.manifest) (.text id)) :
    ∃ item ∈ items, item.1 = .text id := by
  obtain ⟨entry, hentry, rfl⟩ := List.mem_map.1 (List.contains_iff_mem.1 hknown)
  obtain ⟨item, hitem, hholds⟩ := exists_right_of_mem h.holds hentry
  exact ⟨item, hitem, hholds.key⟩

theorem Loads.exists_document (h : Loads store c kind items) {item : Value × Path × kind.Record}
    (hitem : item ∈ items) :
    ∃ entry ∈ c.documents kind.manifest, Collection.Holds kind.Reads entry item :=
  exists_left_of_mem h.holds hitem

end Store

end Playbook
