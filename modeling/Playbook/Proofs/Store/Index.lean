import Mathlib.Data.List.Basic
import Playbook.Proofs.Path
import Playbook.Proofs.Store.Kinds
import Playbook.Proofs.Store.Reading
import Playbook.Proofs.Tree.Files
import Playbook.Proofs.Value.Keys

/-!
# Collections by id

A collection has for each id the manifest of the first file, in the order of
paths, that holds one with that id. A file of which the collection has nothing
has one warning.
-/

namespace Playbook

open Value (IsKey)

/-! ## Listed files -/

namespace Manifests

variable {tree : Tree} {directory : Path} {skipped names : List String} {paths : List Path}

theorem isListed_iff : isListed skipped names ↔
    (Path.splitName (names.getLast?.getD "")).2 ∈ suffixes ∧
      (names.getLast?.getD "").startsWith "_" = false ∧
        ∀ name ∈ names.dropLast, name ∉ skipped := by
  simp [isListed, and_assoc]

/-- Listed are the regular files below a directory that have the name of a manifest. -/
theorem mem_files_iff (proper : tree.Proper) (h : files tree directory skipped = .ok paths)
    {path : Path} : path ∈ paths ↔
      ∃ names, path = pathBelow directory names ∧ tree.HasFile directory names ∧
        isListed skipped names := by
  obtain ⟨listing, hlisting, h⟩ := Attempt.of_bind_ok h
  cases h
  rw [Path.mem_sort, List.mem_map]
  constructor
  · rintro ⟨names, hnames, rfl⟩
    obtain ⟨hmem, hlisted⟩ := List.mem_filter.1 hnames
    exact ⟨names, rfl, (Tree.mem_filesBelow_iff proper hlisting).1 hmem, hlisted⟩
  · rintro ⟨names, rfl, hfile, hlisted⟩
    have hbelow := (Tree.mem_filesBelow_iff proper hlisting).2 hfile
    exact ⟨names, List.mem_filter.2 ⟨hbelow, hlisted⟩, rfl⟩

theorem pathBelow_injective (directory : Path) : Function.Injective (pathBelow directory) := by
  intro names others h
  exact List.append_cancel_left (congrArg Path.names h)

/-- Listed files stand in the order of their paths, each once. -/
theorem pairwise_files (proper : tree.Proper) (h : files tree directory skipped = .ok paths) :
    paths.Pairwise fun p q => p.names < q.names := by
  obtain ⟨listing, hlisting, h⟩ := Attempt.of_bind_ok h
  cases h
  set below := (listing.filter (isListed skipped)).map (pathBelow directory) with hbelow
  have hnodup : (Path.sort below).Nodup := by
    rw [(Path.sort_perm below).nodup_iff, hbelow]
    exact ((Tree.nodup_filesBelow proper hlisting).filter _).map (pathBelow_injective directory)
  have hstart : ∀ path ∈ Path.sort below, path.start = directory.start := by
    intro path hpath
    obtain ⟨names, -, rfl⟩ := List.mem_map.1 (Path.mem_sort.1 hpath)
    rfl
  refine ((Path.pairwise_sort below).and hnodup).imp_of_mem fun {p q} hp hq hpq => ?_
  refine lt_of_le_of_ne hpq.1 fun hnames => hpq.2 ?_
  have hstarts := (hstart p hp).trans (hstart q hq).symm
  cases p
  cases q
  simp_all

theorem nodup_of_pairwise_lt (h : paths.Pairwise fun p q => p.names < q.names) : paths.Nodup :=
  h.imp fun hlt heq => (ne_of_lt hlt) (congrArg Path.names heq)

theorem loaded?_eq_some_iff {path : Path} {entry : Path × Value} :
    loaded? tree path = some entry ↔ entry.1 = path ∧ document tree path = .ok (.ok entry.2) := by
  unfold loaded?
  constructor
  · intro h
    split at h
    · cases h
      exact ⟨rfl, ‹_›⟩
    · cases h
  · obtain ⟨own, v⟩ := entry
    rintro ⟨rfl, h⟩
    rw [h]

end Manifests

/-! ## Adding documents -/

namespace Collection

variable {α : Type} {kind : String} {id : α → Value} {parse : Path → Value → Attempt α}
  {items found : Items α} {documents : List (Path × Value)} {log : Log}

/-- What a document gives that can be read. -/
def item? (id : α → Value) (parse : Path → Value → Attempt α) (entry : Path × Value) :
    Option (Value × Path × α) :=
  match parse entry.1 entry.2 with
  | .ok a => some (id a, entry.1, a)
  | .error _ => none

/-- The warning for a document that is passed over. -/
def warningOn (kind : String) (id : α → Value) (parse : Path → Value → Attempt α)
    (entry : Path × Value) : LogEntry :=
  match parse entry.1 entry.2 with
  | .ok a => duplicateWarning kind (id a) entry.1
  | .error fault => faultWarning kind entry.1 fault

theorem place_of_item? {entry : Path × Value} {item : Value × Path × α}
    (h : item? id parse entry = some item) : item.2.1 = entry.1 := by
  unfold item? at h
  split at h
  · cases h
    rfl
  · cases h

/-- What adding a document does where it gives something. -/
inductive Adds (kind : String) (id : α → Value) (parse : Path → Value → Attempt α)
    (items : Items α) (entry : Path × Value) : Log → Items α → Prop where
  | faulty (h : item? id parse entry = none) :
      Adds kind id parse items entry [warningOn kind id parse entry] items
  | again {item : Value × Path × α} (h : item? id parse entry = some item)
      (hkey : item.1.canBeKey = true) (hagain : items.any fun other => other.1.same item.1) :
      Adds kind id parse items entry [warningOn kind id parse entry] items
  | first {item : Value × Path × α} (h : item? id parse entry = some item)
      (hkey : item.1.canBeKey = true)
      (hnew : items.any (fun other => other.1.same item.1) = false) :
      Adds kind id parse items entry [] (items ++ [item])

theorem adds_of_addDocument {entry : Path × Value}
    (h : addDocument kind id parse items entry.1 entry.2 = (log, .ok found)) :
    Adds kind id parse items entry log found := by
  rw [addDocument] at h
  split at h
  · rename_i fault hparse
    split at h
    · cases h
      have hwarning : warningOn kind id parse entry = faultWarning kind entry.1 fault := by
        rw [warningOn, hparse]
      exact hwarning ▸ .faulty (by rw [item?, hparse])
    · cases h
  · rename_i a hparse
    have hitem : item? id parse entry = some (id a, entry.1, a) := by rw [item?, hparse]
    cases hkey : (id a).canBeKey with
    | false => simp [hkey] at h
    | true =>
        simp only [hkey, Bool.not_true, Bool.false_eq_true, if_false] at h
        split at h
        · cases h
          have hwarning : warningOn kind id parse entry = duplicateWarning kind (id a) entry.1 := by
            rw [warningOn, hparse]
          exact hwarning ▸ .again hitem hkey ‹_›
        · cases h
          exact .first hitem hkey (Bool.eq_false_iff.2 ‹_›)

theorem of_addDocuments_cons_ok {entry : Path × Value}
    (h : addDocuments kind id parse items (entry :: documents) = (log, .ok found)) :
    ∃ first mid rest, Adds kind id parse items entry first mid ∧
      addDocuments kind id parse mid documents = (rest, .ok found) ∧ log = first ++ rest := by
  rw [addDocuments] at h
  split at h
  · cases h
  · rename_i first mid hadd
    obtain ⟨rfl, hrest⟩ := Prod.mk.inj h
    exact ⟨first, mid, _, adds_of_addDocument hadd, Prod.ext rfl hrest, rfl⟩

theorem Adds.of_mem {entry : Path × Value} (h : Adds kind id parse items entry log found)
    {item : Value × Path × α} (hitem : item ∈ found) :
    item ∈ items ∨ item? id parse entry = some item ∧ item.1.canBeKey = true := by
  cases h with
  | faulty _ | again _ _ _ => exact .inl hitem
  | first hgiven hkey _ =>
      refine (List.mem_append.1 hitem).imp_right fun hlast => ?_
      rw [List.mem_singleton.1 hlast]
      exact ⟨hgiven, hkey⟩

/-- Only what a document gives, under a key, can be new. -/
theorem mem_of_addDocuments (h : addDocuments kind id parse items documents = (log, .ok found))
    {item : Value × Path × α} (hitem : item ∈ found) :
    item ∈ items ∨ ∃ entry ∈ documents,
      item? id parse entry = some item ∧ item.1.canBeKey = true := by
  induction documents generalizing items log with
  | nil =>
      cases h
      exact .inl hitem
  | cons entry documents ih =>
      obtain ⟨_, _, _, hadds, hrest, -⟩ := of_addDocuments_cons_ok h
      rcases ih hrest with hmid | ⟨other, hother, hgiven⟩
      · exact (hadds.of_mem hmid).imp_right fun hgiven => ⟨entry, List.mem_cons_self, hgiven⟩
      · exact .inr ⟨other, List.mem_cons_of_mem _ hother, hgiven⟩

/--
A key finds among the items what it finds among all that the documents give:
what is not added has a key for which an earlier item is found.
-/
theorem find?_of_addDocuments (hitems : ∀ item ∈ items, item.1.IsKey)
    (canonical : ∀ entry ∈ documents, ∀ item ∈ item? id parse entry, item.1.Canonical)
    (h : addDocuments kind id parse items documents = (log, .ok found)) {key : Value}
    (hkey : key.IsKey) :
    (found.find? fun item => item.1.same key) =
      (items ++ documents.filterMap (item? id parse)).find? fun item => item.1.same key := by
  induction documents generalizing items log with
  | nil =>
      cases h
      simp
  | cons entry documents ih =>
      obtain ⟨first, mid, rest, hadds, hrest, -⟩ := of_addDocuments_cons_ok h
      have hcanonical := canonical entry List.mem_cons_self
      have ih (hmid : ∀ item ∈ mid, item.1.IsKey) :=
        ih hmid (fun other hother => canonical other (List.mem_cons_of_mem _ hother)) hrest
      cases hadds with
      | faulty hnone => rw [List.filterMap_cons_none hnone, ih hitems]
      | @again item hsome hown hagain =>
          have hkeyed : item.1.IsKey := ⟨hown, hcanonical item hsome⟩
          rw [List.filterMap_cons_some hsome, ih hitems, List.find?_append, List.find?_append,
            List.find?_cons]
          cases hsame : item.1.same key with
          | false => rfl
          | true =>
              obtain ⟨other, hother, heq⟩ := List.any_eq_true.1 hagain
              rw [(hitems other hother).same_congr hkeyed hkey hsame] at heq
              have hfound : (items.find? fun item => item.1.same key).isSome :=
                List.find?_isSome.2 ⟨other, hother, heq⟩
              rw [Option.or_of_isSome hfound, Option.or_of_isSome hfound]
      | @first item hsome hown _ =>
          have hkeyed : item.1.IsKey := ⟨hown, hcanonical item hsome⟩
          rw [List.filterMap_cons_some hsome, ih, List.append_assoc, List.singleton_append]
          intro other hother
          rcases List.mem_append.1 hother with hother | hother
          · exact hitems other hother
          · rwa [List.mem_singleton.1 hother]

/-- Each document is added or has its warning. -/
theorem added_of_addDocuments (nodup : (documents.map (·.1)).Nodup)
    (h : addDocuments kind id parse items documents = (log, .ok found)) :
    ∃ added, found = items ++ added ∧
      (∀ item ∈ added, ∃ entry ∈ documents, item? id parse entry = some item) ∧
      log = (documents.filter fun entry => entry.1 ∉ added.map (·.2.1)).map
        (warningOn kind id parse) := by
  induction documents generalizing items log with
  | nil =>
      cases h
      exact ⟨[], by simp, by simp, rfl⟩
  | cons entry documents ih =>
      rw [List.map_cons, List.nodup_cons] at nodup
      obtain ⟨first, mid, rest, hadds, hrest, rfl⟩ := of_addDocuments_cons_ok h
      obtain ⟨added, rfl, hadded, rfl⟩ := ih nodup.2 hrest
      have hlater (item : Value × Path × α) (hitem : item ∈ added) :
          ∃ other ∈ entry :: documents, item? id parse other = some item := by
        obtain ⟨other, hother, hsome⟩ := hadded item hitem
        exact ⟨other, List.mem_cons_of_mem _ hother, hsome⟩
      have hnew : entry.1 ∉ added.map (·.2.1) := by
        rintro hold
        obtain ⟨item, hitem, hplace⟩ := List.mem_map.1 hold
        obtain ⟨other, hother, hsome⟩ := hadded item hitem
        rw [← hplace, place_of_item? hsome] at nodup
        exact nodup.1 (List.mem_map_of_mem hother)
      cases hadds with
      | faulty _ | again _ _ _ =>
          refine ⟨added, rfl, hlater, ?_⟩
          rw [List.filter_cons_of_pos (by simpa using hnew)]
          rfl
      | @first item hsome _ _ =>
          have hplace := place_of_item? hsome
          refine ⟨item :: added, by simp, ?_, ?_⟩
          · rw [List.forall_mem_cons]
            exact ⟨⟨entry, List.mem_cons_self, hsome⟩, hlater⟩
          · rw [List.filter_cons_of_neg (by simp [hplace]), List.nil_append]
            congr 1
            refine List.filter_congr fun other hother => ?_
            have hne : other.1 ≠ item.2.1 := by
              rw [hplace]
              rintro heq
              exact nodup.1 (heq ▸ List.mem_map_of_mem hother)
            simp [hne]

/-- No two items have the same key. -/
theorem pairwise_of_addDocuments (hitems : items.Pairwise fun a b => a.1.same b.1 = false)
    (h : addDocuments kind id parse items documents = (log, .ok found)) :
    found.Pairwise fun a b => a.1.same b.1 = false := by
  induction documents generalizing items log with
  | nil =>
      cases h
      exact hitems
  | cons entry documents ih =>
      obtain ⟨first, mid, rest, hadds, hrest, -⟩ := of_addDocuments_cons_ok h
      refine ih ?_ hrest
      cases hadds with
      | faulty _ | again _ _ _ => exact hitems
      | @first item _ _ hnew =>
          refine List.pairwise_append.2 ⟨hitems, List.pairwise_singleton _ _, fun a ha b hb => ?_⟩
          obtain rfl := List.mem_singleton.1 hb
          exact Bool.eq_false_iff.2 (List.any_eq_false.1 hnew a ha)

/-! ## Reading files -/

variable {tree : Tree} {directory path : Path} {skipped : List String} {paths : List Path}

/-- A file holds a manifest. -/
def Yields (tree : Tree) (parse : Path → Value → Attempt α) (path : Path) (a : α) : Prop :=
  ∃ v, Manifests.document tree path = .ok (.ok v) ∧ parse path v = .ok a

/-- What is read was read from files, and added in their order. -/
theorem exists_added_of_read (h : (read tree directory kind id parse skipped).2 = .ok items) :
    ∃ paths log, Manifests.files tree directory skipped = .ok paths ∧
      addDocuments kind id parse [] (paths.filterMap (Manifests.loaded? tree)) =
        (log, .ok items) := by
  cases hfiles : Manifests.files tree directory skipped with
  | error fault =>
      rw [read, hfiles] at h
      cases h
  | ok paths =>
      obtain ⟨_, documents, log, hload, hadd, -⟩ := read_eq_ok (Prod.ext rfl h) hfiles
      obtain ⟨-, -, rfl⟩ := Manifests.loadAll_eq_ok hload
      exact ⟨paths, log, rfl, hadd⟩

/-- An item is the manifest of a file, under its id. -/
theorem exists_yields_of_read (h : (read tree directory kind id parse skipped).2 = .ok items)
    {item : Value × Path × α} (hitem : item ∈ items) :
    ∃ paths, Manifests.files tree directory skipped = .ok paths ∧ ∃ path ∈ paths,
      Yields tree parse path item.2.2 ∧ item.1 = id item.2.2 ∧ item.1.canBeKey = true := by
  obtain ⟨paths, _, hfiles, hadd⟩ := exists_added_of_read h
  rcases mem_of_addDocuments hadd hitem with hnone | ⟨entry, hentry, hsome, hkey⟩
  · cases hnone
  · obtain ⟨path, hpath, hloaded⟩ := List.mem_filterMap.1 hentry
    obtain ⟨rfl, hdocument⟩ := Manifests.loaded?_eq_some_iff.1 hloaded
    unfold item? at hsome
    split at hsome
    · rename_i a hparse
      cases hsome
      exact ⟨paths, hfiles, entry.1, hpath, ⟨entry.2, hdocument, hparse⟩, rfl, hkey⟩
    · cases hsome

/-- No two items of a collection that is read have the same key. -/
theorem pairwise_of_read (h : (read tree directory kind id parse skipped).2 = .ok items) :
    items.Pairwise fun a b => a.1.same b.1 = false := by
  obtain ⟨_, _, -, hadd⟩ := exists_added_of_read h
  exact pairwise_of_addDocuments .nil hadd

/-- Of some files in an order, this one is the first that holds a manifest with an id. -/
def First (tree : Tree) (id : α → Value) (parse : Path → Value → Attempt α) (paths : List Path)
    (key : Value) (path : Path) (a : α) : Prop :=
  ∃ ahead behind, paths = ahead ++ path :: behind ∧ Yields tree parse path a ∧
    (id a).same key = true ∧
    ∀ other ∈ ahead, ∀ b, Yields tree parse other b → (id b).same key = false

/-- What a file gives that holds a manifest. -/
def itemAt? (tree : Tree) (id : α → Value) (parse : Path → Value → Attempt α) (path : Path) :
    Option (Value × Path × α) :=
  (Manifests.loaded? tree path).bind (item? id parse)

theorem itemAt?_eq_some_iff {item : Value × Path × α} :
    itemAt? tree id parse path = some item ↔
      Yields tree parse path item.2.2 ∧ item = (id item.2.2, path, item.2.2) := by
  rw [itemAt?, Option.bind_eq_some_iff]
  constructor
  · rintro ⟨entry, hentry, hitem⟩
    obtain ⟨rfl, hdocument⟩ := Manifests.loaded?_eq_some_iff.1 hentry
    unfold item? at hitem
    split at hitem
    · cases hitem
      exact ⟨⟨entry.2, hdocument, ‹_›⟩, rfl⟩
    · cases hitem
  · rintro ⟨⟨v, hdocument, hparse⟩, hitem⟩
    refine ⟨(path, v), Manifests.loaded?_eq_some_iff.2 ⟨rfl, hdocument⟩, ?_⟩
    rw [hitem]
    simp only [item?, hparse]

/-- The first of some files with an id is the one that is found. -/
theorem find?_filterMap_itemAt? {key : Value} {a : α} :
    ((paths.filterMap (itemAt? tree id parse)).find? fun item => item.1.same key) =
        some (id a, path, a) ↔
      First tree id parse paths key path a := by
  rw [List.find?_filterMap, Option.bind_eq_some_iff]
  constructor
  · rintro ⟨own, hown, hitem⟩
    obtain ⟨hsame, ahead, behind, hpaths, hahead⟩ := List.find?_eq_some_iff_append.1 hown
    obtain ⟨hyields, hplace⟩ := itemAt?_eq_some_iff.1 hitem
    obtain rfl : path = own := congrArg (·.2.1) hplace
    rw [hitem] at hsame
    refine ⟨ahead, behind, hpaths, hyields, hsame, fun other hother b hb => ?_⟩
    have hnone := hahead other hother
    have hitem : itemAt? tree id parse other = some (id b, other, b) :=
      itemAt?_eq_some_iff.2 ⟨hb, rfl⟩
    simpa [hitem] using hnone
  · rintro ⟨ahead, behind, hpaths, hyields, hsame, hahead⟩
    have hitem : itemAt? tree id parse path = some (id a, path, a) :=
      itemAt?_eq_some_iff.2 ⟨hyields, rfl⟩
    refine ⟨path, List.find?_eq_some_iff_append.2 ⟨by rw [hitem]; exact hsame, ahead, behind,
      hpaths, fun other hother => ?_⟩, hitem⟩
    cases hother' : itemAt? tree id parse other with
    | none => rfl
    | some item =>
        obtain ⟨hb, hitem⟩ := itemAt?_eq_some_iff.1 hother'
        have hdifferent := hahead other hother _ hb
        rw [hitem]
        simpa using hdifferent

theorem filterMap_itemAt? (paths : List Path) :
    (paths.filterMap (Manifests.loaded? tree)).filterMap (item? id parse) =
      paths.filterMap (itemAt? tree id parse) := by
  rw [List.filterMap_filterMap]
  rfl

/-- The warning for a file that a collection passes over. -/
def warningAt (tree : Tree) (kind : String) (id : α → Value) (parse : Path → Value → Attempt α)
    (path : Path) : LogEntry :=
  match Manifests.document tree path with
  | .ok (.ok v) => warningOn kind id parse (path, v)
  | .ok (.error unusable) => Manifests.skipWarning path unusable
  | .error fault => faultWarning kind path fault

/-- A warning names the file that it is about. -/
theorem exists_warningAt (tree : Tree) (kind : String) (id : α → Value)
    (parse : Path → Value → Attempt α) (path : Path) :
    ∃ front back, warningAt tree kind id parse path = warn (front ++ path.text ++ back) := by
  have hfault (fault : Fault) : ∃ front back,
      faultWarning kind path fault = warn (front ++ path.text ++ back) :=
    ⟨"Skipping " ++ kind ++ " manifest ", ": " ++ fault.reason, by
      simp only [faultWarning, String.append_assoc]⟩
  unfold warningAt
  split
  · unfold warningOn
    split
    · exact ⟨_, _, rfl⟩
    · exact hfault _
  · rename_i unusable _
    exact ⟨"Skipping manifest ", ": " ++ unusable.reason path, by
      simp only [Manifests.skipWarning, String.append_assoc]⟩
  · exact hfault _

/-- Some file holds a manifest with an id if and only if there is a first one. -/
theorem exists_first_iff {key : Value} : (∃ path a, First tree id parse paths key path a) ↔
    ∃ path ∈ paths, ∃ a, Yields tree parse path a ∧ (id a).same key = true := by
  constructor
  · rintro ⟨path, a, ahead, behind, rfl, hyields, hsame, -⟩
    exact ⟨path, by simp, a, hyields, hsame⟩
  · rintro ⟨path, hpath, a, hyields, hsame⟩
    have hmem : (id a, path, a) ∈ paths.filterMap (itemAt? tree id parse) :=
      List.mem_filterMap.2 ⟨path, hpath, itemAt?_eq_some_iff.2 ⟨hyields, rfl⟩⟩
    have hfound : ((paths.filterMap (itemAt? tree id parse)).find? fun item =>
        item.1.same key).isSome := List.find?_isSome.2 ⟨_, hmem, hsame⟩
    obtain ⟨item, hitem⟩ := Option.isSome_iff_exists.1 hfound
    obtain ⟨own, -, hown⟩ := List.mem_filterMap.1 (List.mem_of_find?_eq_some hitem)
    rw [(itemAt?_eq_some_iff.1 hown).2] at hitem
    exact ⟨own, item.2.2, find?_filterMap_itemAt?.1 hitem⟩

/-- A collection as it was read from files in an order. -/
structure Indexed (tree : Tree) (kind : String) (id : α → Value)
    (parse : Path → Value → Attempt α) (paths : List Path) (items : Items α) (log : Log) :
    Prop where
  /-- An item has the manifest of a file, by its id. -/
  holds : ∀ item ∈ items, item.2.1 ∈ paths ∧ Yields tree parse item.2.1 item.2.2 ∧
    item.1 = id item.2.2
  distinct : items.Pairwise fun a b => a.1.same b.1 = false
  /-- A key has the manifest of the first file that holds one with it. -/
  found : ∀ key : Value, key.IsKey → ∀ path a,
    Store.find? items key = .ok (some (path, a)) ↔ First tree id parse paths key path a
  /-- The files of which nothing is in the collection have one warning each. -/
  warned : log.Perm ((paths.filter fun path => path ∉ items.map (·.2.1)).map
    (warningAt tree kind id parse))

/-- What two choices take from a list, where they never take from one entry. -/
theorem filterMap_append_perm {β γ : Type} {f g : β → Option γ} {keep : β → Bool} {value : β → γ}
    {l : List β} (h : ∀ b ∈ l,
      keep b = true ∧ f b = some (value b) ∧ g b = none ∨
      keep b = true ∧ f b = none ∧ g b = some (value b) ∨
      keep b = false ∧ f b = none ∧ g b = none) :
    (l.filterMap f ++ l.filterMap g).Perm ((l.filter keep).map value) := by
  induction l with
  | nil => exact .nil
  | cons b l ih =>
      have ih := ih fun other hother => h other (List.mem_cons_of_mem _ hother)
      rcases h b List.mem_cons_self with ⟨hkeep, hf, hg⟩ | ⟨hkeep, hf, hg⟩ | ⟨hkeep, hf, hg⟩
      · rw [List.filterMap_cons_some hf, List.filterMap_cons_none hg, List.filter_cons_of_pos hkeep]
        exact ih.cons _
      · rw [List.filterMap_cons_none hf, List.filterMap_cons_some hg, List.filter_cons_of_pos hkeep]
        exact List.perm_middle.trans (ih.cons _)
      · rw [List.filterMap_cons_none hf, List.filterMap_cons_none hg,
          List.filter_cons_of_neg (by simp [hkeep])]
        exact ih

theorem map_loaded? (paths : List Path) : (paths.filterMap (Manifests.loaded? tree)).map (·.1) =
    paths.filter fun path => (Manifests.loaded? tree path).isSome := by
  rw [List.map_filterMap, ← List.filterMap_eq_filter]
  congr 1
  funext path
  cases hloaded : Manifests.loaded? tree path with
  | none => simp [Option.guard, hloaded]
  | some entry => simp [Option.guard, hloaded, (Manifests.loaded?_eq_some_iff.1 hloaded).1]

/-- The warnings for files without a document and those for the documents that are passed over. -/
theorem warnings_perm {places : List Path}
    (hread : ∀ path ∈ paths, ∃ found, Manifests.document tree path = .ok found)
    (hplaces : ∀ path ∈ places, (Manifests.loaded? tree path).isSome) :
    (paths.filterMap (Manifests.skipped? tree) ++
        ((paths.filterMap (Manifests.loaded? tree)).filter fun entry => entry.1 ∉ places).map
          (warningOn kind id parse)).Perm
      ((paths.filter fun path => path ∉ places).map (warningAt tree kind id parse)) := by
  rw [List.filter_filterMap, List.map_filterMap]
  refine filterMap_append_perm fun path hpath => ?_
  obtain ⟨found, hfound⟩ := hread path hpath
  cases found with
  | error unusable =>
      have hnone : Manifests.loaded? tree path = none := by rw [Manifests.loaded?, hfound]
      have hnew : path ∉ places := fun hold => by simpa [hnone] using hplaces path hold
      exact .inl ⟨by simpa using hnew, by simp only [Manifests.skipped?, warningAt, hfound],
        by rw [hnone]; rfl⟩
  | ok v =>
      have hloaded : Manifests.loaded? tree path = some (path, v) := by
        rw [Manifests.loaded?, hfound]
      have hnone : Manifests.skipped? tree path = none := by rw [Manifests.skipped?, hfound]
      by_cases hold : path ∈ places
      · exact .inr (.inr ⟨by simpa using hold, hnone, by simp [hloaded, hold]⟩)
      · refine .inr (.inl ⟨by simpa using hold, hnone, ?_⟩)
        simp [hloaded, warningAt, hfound, hold]

theorem indexed_of_read (canonical : ∀ path a, Yields tree parse path a → (id a).Canonical)
    (nodup : paths.Nodup) (hfiles : Manifests.files tree directory skipped = .ok paths)
    (h : read tree directory kind id parse skipped = (log, .ok items)) :
    Indexed tree kind id parse paths items log := by
  obtain ⟨log₁, documents, log₂, hload, hadd, rfl⟩ := read_eq_ok h hfiles
  obtain ⟨hread, rfl, rfl⟩ := Manifests.loadAll_eq_ok hload
  have hitem {entry : Path × Value} (hentry : entry ∈ paths.filterMap (Manifests.loaded? tree))
      {item : Value × Path × α} (hsome : item? id parse entry = some item) :
      ∃ path ∈ paths, itemAt? tree id parse path = some item := by
    obtain ⟨path, hpath, hloaded⟩ := List.mem_filterMap.1 hentry
    exact ⟨path, hpath, by rw [itemAt?, hloaded]; exact hsome⟩
  obtain ⟨_, rfl, hadded, rfl⟩ := added_of_addDocuments (map_loaded? paths ▸ nodup.filter _) hadd
  have hholds : ∀ item ∈ items, item.2.1 ∈ paths ∧ Yields tree parse item.2.1 item.2.2 ∧
      item.1 = id item.2.2 := by
    intro item hmem
    obtain ⟨entry, hentry, hsome⟩ := hadded item hmem
    obtain ⟨path, hpath, hat⟩ := hitem hentry hsome
    obtain ⟨hyields, hplace⟩ := itemAt?_eq_some_iff.1 hat
    obtain rfl : item.2.1 = path := congrArg (·.2.1) hplace
    exact ⟨hpath, hyields, congrArg (·.1) hplace⟩
  have hcanonical : ∀ entry ∈ paths.filterMap (Manifests.loaded? tree),
      ∀ item ∈ item? id parse entry, item.1.Canonical := by
    intro entry hentry item hsome
    obtain ⟨path, -, hat⟩ := hitem hentry hsome
    obtain ⟨hyields, hplace⟩ := itemAt?_eq_some_iff.1 hat
    rw [hplace]
    exact canonical path _ hyields
  refine ⟨hholds, pairwise_of_addDocuments .nil hadd, fun key hkey path a => ?_,
    warnings_perm hread fun path hpath => ?_⟩
  · have hfind := find?_of_addDocuments (by simp) hcanonical hadd hkey
    rw [List.nil_append, filterMap_itemAt?] at hfind
    rw [← find?_filterMap_itemAt?, ← hfind, Store.find?, if_pos hkey.canBeKey, Except.ok.injEq,
      Option.map_eq_some_iff]
    constructor
    · rintro ⟨⟨own, place, b⟩, hitem, hpair⟩
      obtain rfl : own = id b := (hholds _ (List.mem_of_find?_eq_some hitem)).2.2
      cases hpair
      exact hitem
    · intro hfound
      exact ⟨_, hfound, rfl⟩
  · obtain ⟨item, hmem, rfl⟩ := List.mem_map.1 hpath
    obtain ⟨-, ⟨v, hdocument, -⟩, -⟩ := hholds item hmem
    rw [Manifests.loaded?, hdocument]
    rfl

end Collection

namespace Store.Kind

variable {kind : Kind} {store : Store} {items : Collection.Items kind.Record}

theorem exists_read_of_reading (h : (kind.reading store).2 = .ok items) :
    ∃ directory, store.settings.dirPath kind.name = .ok directory ∧
      (Collection.read store.tree directory kind.name kind.id (kind.parse store)
        kind.skipped).2 = .ok items := by
  rw [reading, Store.read] at h
  split at h
  · cases h
  · exact ⟨_, ‹_›, h⟩

theorem nodup_of_reading (h : (kind.reading store).2 = .ok items) : (items.map (·.1)).Nodup := by
  obtain ⟨_, -, hread⟩ := exists_read_of_reading h
  refine List.pairwise_map.2 ((Collection.pairwise_of_read hread).imp ?_)
  rintro item other hnot heq
  rw [heq, Value.same_refl] at hnot
  cases hnot

theorem exists_yields_of_reading (h : (kind.reading store).2 = .ok items)
    {item : Value × Path × kind.Record} (hitem : item ∈ items) :
    ∃ path, Collection.Yields store.tree (kind.parse store) path item.2.2 ∧
      item.1 = kind.id item.2.2 ∧ item.1.canBeKey = true := by
  obtain ⟨_, -, hread⟩ := exists_read_of_reading h
  obtain ⟨_, -, path, -, hyields⟩ := Collection.exists_yields_of_read hread hitem
  exact ⟨path, hyields⟩

end Store.Kind

end Playbook
