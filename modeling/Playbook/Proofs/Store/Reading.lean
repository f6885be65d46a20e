import Playbook.Proofs.Tree
import Playbook.Proofs.Work
import Playbook.Store

/-!
# Reading directories

What one more file does to the reading of a directory: the files of before are
read as before, and the new one is left out with a warning or gives the whole
reading up.
-/

namespace Playbook

/-! ## Files -/

namespace Manifests

variable {tree : Tree} {directory : Path} {entries : List (String × Tree)} {names : List String}

/-- The path of a file below a directory. -/
def pathBelow (directory : Path) (names : List String) : Path :=
  { directory with names := directory.names ++ names }

/-- A file of a kind of manifest comes in between the others; no other file makes a difference. -/
theorem files_withFile (hask : tree.ask directory = .ok (some (.directory entries)))
    (room : (Tree.directory entries).HasRoom names) (plain : ".." ∉ names) (f : File)
    (skipped : List String) :
    ∃ paths, files tree directory skipped = .ok paths ∧
      if isListed skipped names then
        ∃ paths', files (tree.withFile directory names f) directory skipped = .ok paths' ∧
          Inserted (pathBelow directory names) paths paths'
      else files (tree.withFile directory names f) directory skipped = .ok paths := by
  obtain ⟨listing, listing', hlisting, hlisting', hperm⟩ :=
    Tree.filesBelow_withFile hask room plain f
  have hfiltered := (hperm.filter (isListed skipped)).map (pathBelow directory)
  have hstart : ∀ path ∈ (listing'.filter (isListed skipped)).map (pathBelow directory),
      path.start = directory.start := by
    intro path hpath
    obtain ⟨other, -, rfl⟩ := List.mem_map.1 hpath
    rfl
  refine ⟨Path.sort ((listing.filter (isListed skipped)).map (pathBelow directory)), ?_, ?_⟩
  · rw [files, hlisting]
    rfl
  · have hfiles : files (tree.withFile directory names f) directory skipped =
        .ok (Path.sort ((listing'.filter (isListed skipped)).map (pathBelow directory))) := by
      rw [files, hlisting']
      rfl
    by_cases hlisted : isListed skipped names
    · rw [if_pos hlisted]
      rw [List.filter_cons_of_pos hlisted] at hfiltered
      exact ⟨_, hfiles, Path.sort_inserted hfiltered hstart⟩
    · rw [if_neg hlisted, hfiles]
      rw [List.filter_cons_of_neg hlisted] at hfiltered
      exact congrArg _ (Path.sort_eq_of_perm hfiltered hstart)

theorem mem_files {paths : List Path} {skipped : List String}
    (h : files tree directory skipped = .ok paths) {path : Path} (hpath : path ∈ paths) :
    ∃ listing, tree.filesBelow directory = .ok listing ∧
      ∃ names ∈ listing, path = pathBelow directory names := by
  obtain ⟨listing, hlisting, h⟩ := Attempt.of_bind_ok h
  cases h
  obtain ⟨names, hnames, rfl⟩ := List.mem_map.1 (Path.mem_sort.1 hpath)
  exact ⟨listing, hlisting, names, List.mem_of_mem_filter hnames, rfl⟩

theorem document_withFile (proper : tree.Proper)
    (hask : tree.ask directory = .ok (some (.directory entries)))
    (room : (Tree.directory entries).HasRoom names) (plain : ".." ∉ names) (f : File)
    {paths : List Path} {skipped : List String}
    (hfiles : files tree directory skipped = .ok paths) {path : Path} (hpath : path ∈ paths) :
    document (tree.withFile directory names f) path = document tree path := by
  obtain ⟨listing, hlisting, other, hother, rfl⟩ := mem_files hfiles hpath
  rw [document, document, pathBelow,
    Tree.document_withFile proper hask room plain f hlisting hother]

/-! ## Documents -/

/-- The warning for a file without a mapping. -/
def skipped? (tree : Tree) (path : Path) : Option LogEntry :=
  match document tree path with
  | .ok (.error unusable) => some (skipWarning path unusable)
  | _ => none

def loaded? (tree : Tree) (path : Path) : Option (Path × Value) :=
  match document tree path with
  | .ok (.ok v) => some (path, v)
  | _ => none

theorem loadAll_log (tree : Tree) (paths : List Path) :
    (loadAll tree paths).1 = paths.filterMap (skipped? tree) := by
  simp only [loadAll, List.filterMap_map]
  rfl

/-- What each of some files holds, if every file lets itself be read. -/
def outcomes (tree : Tree) (paths : List Path) : Attempt (List (Path × Except Unusable Value)) :=
  (paths.map fun path => (path, document tree path)).mapM fun (path, result) =>
    result.map fun found => (path, found)

theorem outcomes_cons (tree : Tree) (path : Path) (paths : List Path) :
    outcomes tree (path :: paths) = do
      let found ← document tree path
      let rest ← outcomes tree paths
      return (path, found) :: rest := by
  rw [outcomes, List.map_cons, List.mapM_cons]
  cases document tree path <;> rfl

theorem loadAll_documents {tree : Tree} {paths : List Path}
    (h : ∀ path ∈ paths, ∃ found, document tree path = .ok found) :
    (loadAll tree paths).2 = .ok (paths.filterMap (loaded? tree)) := by
  have houtcomes (keep : Path × Except Unusable Value → Option (Path × Value))
      (hok : ∀ path v, keep (path, .ok v) = some (path, v))
      (herror : ∀ path unusable, keep (path, .error unusable) = none) :
      (outcomes tree paths).map (·.filterMap keep) = .ok (paths.filterMap (loaded? tree)) := by
    induction paths with
    | nil => rfl
    | cons path paths ih =>
        obtain ⟨found, hfound⟩ := h path List.mem_cons_self
        have hrest := ih fun other hother => h other (List.mem_cons_of_mem _ hother)
        rw [outcomes_cons, hfound]
        cases hresults : outcomes tree paths with
        | error fault =>
            rw [hresults] at hrest
            cases hrest
        | ok results =>
            rw [hresults] at hrest
            have hloaded := Except.ok.inj hrest
            refine congrArg Except.ok ?_
            cases found <;> simp [loaded?, hfound, hok, herror, ← hloaded]
  exact houtcomes _ (fun _ _ => rfl) fun _ _ => rfl

theorem exists_fault_of_loadAll {tree : Tree} {paths : List Path} {path : Path} {fault : Fault}
    (hpath : path ∈ paths) (h : document tree path = .error fault) :
    ∃ other, (loadAll tree paths).2 = .error other := by
  have houtcomes : ∃ other, outcomes tree paths = .error other := by
    induction paths with
    | nil => cases hpath
    | cons first paths ih =>
        rw [outcomes_cons]
        rcases List.mem_cons.1 hpath with rfl | hpath
        · exact ⟨fault, by rw [h]; rfl⟩
        · obtain ⟨other, hother⟩ := ih hpath
          rw [hother]
          cases document tree first with
          | error early => exact ⟨early, rfl⟩
          | ok found => exact ⟨other, rfl⟩
  obtain ⟨other, hother⟩ := houtcomes
  exact ⟨other, congrArg (Except.map _) hother⟩

theorem loadAll_eq_ok {tree : Tree} {paths : List Path} {log : Log}
    {documents : List (Path × Value)} (h : loadAll tree paths = (log, .ok documents)) :
    (∀ path ∈ paths, ∃ found, document tree path = .ok found) ∧
      log = paths.filterMap (skipped? tree) ∧ documents = paths.filterMap (loaded? tree) := by
  have hfound : ∀ path ∈ paths, ∃ found, document tree path = .ok found := by
    intro path hpath
    cases hdocument : document tree path with
    | ok found => exact ⟨found, rfl⟩
    | error fault =>
        obtain ⟨other, hother⟩ := exists_fault_of_loadAll hpath hdocument
        rw [h] at hother
        cases hother
  refine ⟨hfound, ?_, ?_⟩
  · rw [← loadAll_log, h]
  · have hdocuments := loadAll_documents hfound
    rw [h] at hdocuments
    exact Except.ok.inj hdocuments

theorem loadAll_eq {tree : Tree} {paths : List Path}
    (h : ∀ path ∈ paths, ∃ found, document tree path = .ok found) :
    loadAll tree paths =
      (paths.filterMap (skipped? tree), .ok (paths.filterMap (loaded? tree))) :=
  Prod.ext (loadAll_log tree paths) (loadAll_documents h)

theorem loadAll_congr {tree tree' : Tree} {paths : List Path}
    (hsame : ∀ path ∈ paths, document tree' path = document tree path) :
    loadAll tree' paths = loadAll tree paths := by
  have hresults : (paths.map fun path => (path, document tree' path)) =
      paths.map fun path => (path, document tree path) :=
    List.map_congr_left fun path hpath => by rw [hsame path hpath]
  unfold loadAll
  rw [hresults]

/-- One more file among others: a fault, a warning, or one more document. -/
theorem loadAll_inserted {tree tree' : Tree} {paths paths' : List Path} {path : Path} {log : Log}
    {documents : List (Path × Value)} (hinserted : Inserted path paths paths')
    (hsame : ∀ other ∈ paths, document tree' other = document tree other)
    (h : loadAll tree paths = (log, .ok documents)) :
    (∀ fault, document tree' path = .error fault →
      ∃ log' other, loadAll tree' paths' = (log', .error other)) ∧
    (∀ unusable, document tree' path = .ok (.error unusable) →
      ∃ log', Inserted (skipWarning path unusable) log log' ∧
        loadAll tree' paths' = (log', .ok documents)) ∧
    (∀ v, document tree' path = .ok (.ok v) →
      ∃ documents', Inserted (path, v) documents documents' ∧
        loadAll tree' paths' = (log, .ok documents')) := by
  rw [← loadAll_congr hsame] at h
  obtain ⟨hfound, rfl, rfl⟩ := loadAll_eq_ok h
  have hall {found : Except Unusable Value} (hdocument : document tree' path = .ok found) :
      ∀ other ∈ paths', ∃ found, document tree' other = .ok found := by
    intro other hother
    rcases hinserted.mem_iff.1 hother with rfl | hother
    · exact ⟨found, hdocument⟩
    · exact hfound other hother
  refine ⟨fun fault hdocument => ?_, fun unusable hdocument => ?_, fun v hdocument => ?_⟩
  · obtain ⟨other, hother⟩ := exists_fault_of_loadAll (hinserted.mem_iff.2 (.inl rfl)) hdocument
    exact ⟨_, other, Prod.ext rfl hother⟩
  · have hwarned : skipped? tree' path = some (skipWarning path unusable) := by
      rw [skipped?, hdocument]
    have hmissed : loaded? tree' path = none := by
      rw [loaded?, hdocument]
    refine ⟨_, hinserted.filterMap_some hwarned, ?_⟩
    rw [loadAll_eq (hall hdocument), hinserted.filterMap_none hmissed]
  · have hunwarned : skipped? tree' path = none := by
      rw [skipped?, hdocument]
    have hread : loaded? tree' path = some (path, v) := by
      rw [loaded?, hdocument]
    refine ⟨_, hinserted.filterMap_some hread, ?_⟩
    rw [loadAll_eq (hall hdocument), hinserted.filterMap_none hunwarned]

end Manifests

/-! ## Collections -/

namespace Collection

section

variable {α : Type} (tree : Tree) (kind : String) (keeps : α → Bool)
variable (parse : Path → Value → Attempt α) (path : Path)

/-- No manifest that can be kept comes of a file. -/
def Useless : Prop :=
  ∀ v manifest, Manifests.document tree path = .ok (.ok v) → parse path v = .ok manifest →
    keeps manifest = false

/-- Why a file keeps its whole collection from being read. -/
inductive Escapes : Prop where
  /-- Its bytes are no text, or a scalar in it has no value. -/
  | unreadable (fault : Fault) (h : Manifests.document tree path = .error fault)
  /-- The reader of the manifest runs into an operation that a value lacks. -/
  | unforeseen (v : Value) (fault : Fault) (h : Manifests.document tree path = .ok (.ok v))
      (hparse : parse path v = .error fault) (hfault : fault.isContentFault = false)
  /-- The manifest cannot be kept, having an id that cannot be a key. -/
  | keyless (v : Value) (manifest : α) (h : Manifests.document tree path = .ok (.ok v))
      (hparse : parse path v = .ok manifest) (hkey : keeps manifest = false)

theorem not_escapes_of_unusable {unusable : Manifests.Unusable}
    (h : Manifests.document tree path = .ok (.error unusable)) :
    ¬ Escapes tree keeps parse path := by
  rintro (⟨_, h'⟩ | ⟨_, _, h'⟩ | ⟨_, _, h'⟩) <;> cases h.symm.trans h'

theorem useless_of_unusable {unusable : Manifests.Unusable}
    (h : Manifests.document tree path = .ok (.error unusable)) :
    Useless tree keeps parse path := by
  intro v manifest hdocument
  cases h.symm.trans hdocument

/-- A collection keeps a manifest by its id. -/
def keyed (id : α → Value) (manifest : α) : Bool := (id manifest).canBeKey

/-- A warning that a file was passed over. -/
def Skips (entry : LogEntry) : Prop :=
  ∃ reason, entry = warn ("Skipping manifest " ++ path.text ++ ": " ++ reason) ∨
    entry = warn ("Skipping " ++ kind ++ " manifest " ++ path.text ++ ": " ++ reason)

end

variable {α : Type} {kind : String} {id : α → Value} {parse : Path → Value → Attempt α}

theorem addDocuments_append (items : Items α) (front back : List (Path × Value)) :
    addDocuments kind id parse items (front ++ back) =
      match addDocuments kind id parse items front with
      | (log, .error fault) => (log, .error fault)
      | (log, .ok items) =>
          let (more, result) := addDocuments kind id parse items back
          (log ++ more, result) := by
  induction front generalizing items with
  | nil => rfl
  | cons entry front ih =>
      obtain ⟨path, document⟩ := entry
      rw [List.cons_append, addDocuments, addDocuments]
      rcases addDocument kind id parse items path document with ⟨log, _ | items⟩
      · rfl
      · simp only [ih]
        rcases addDocuments kind id parse items front with ⟨more, _ | items⟩
        · rfl
        · simp

/-- Documents that were added one after the other. -/
theorem of_addDocuments_append_ok {items kept : Items α} {front back : List (Path × Value)}
    {log : Log} (h : addDocuments kind id parse items (front ++ back) = (log, .ok kept)) :
    ∃ before mid after, addDocuments kind id parse items front = (before, .ok mid) ∧
      addDocuments kind id parse mid back = (after, .ok kept) ∧ log = before ++ after := by
  rw [addDocuments_append] at h
  rcases hfront : addDocuments kind id parse items front with ⟨before, _ | mid⟩
  · rw [hfront] at h
    cases h
  · rw [hfront] at h
    rcases hback : addDocuments kind id parse mid back with ⟨after, result⟩
    simp only [hback] at h
    cases h
    exact ⟨before, mid, after, rfl, hback, rfl⟩

theorem read_eq_ok {tree : Tree} {directory : Path} {skipped : List String} {items : Items α}
    {log : Log} (h : read tree directory kind id parse skipped = (log, .ok items))
    {paths : List Path} (hfiles : Manifests.files tree directory skipped = .ok paths) :
    ∃ log' documents more, Manifests.loadAll tree paths = (log', .ok documents) ∧
      addDocuments kind id parse [] documents = (more, .ok items) ∧ log = log' ++ more := by
  unfold read at h
  rw [hfiles] at h
  rcases hload : Manifests.loadAll tree paths with ⟨log', _ | documents⟩
  · simp only [hload] at h
    cases h
  · rcases hadd : addDocuments kind id parse [] documents with ⟨more, result⟩
    simp only [hload, hadd] at h
    cases h
    exact ⟨log', documents, more, rfl, hadd, rfl⟩

theorem read_eq {tree : Tree} {directory : Path} {skipped : List String} {paths : List Path}
    (hfiles : Manifests.files tree directory skipped = .ok paths)
    {log' : Log} {documents : List (Path × Value)}
    (hload : Manifests.loadAll tree paths = (log', .ok documents)) :
    read tree directory kind id parse skipped =
      (log' ++ (addDocuments kind id parse [] documents).1,
        (addDocuments kind id parse [] documents).2) := by
  unfold read
  simp only [hfiles, hload]

/-- One more document among others is added, passed over with a warning, or ends the adding. -/
theorem addDocuments_inserted {tree : Tree} {path : Path} {v : Value}
    (hdocument : Manifests.document tree path = .ok (.ok v))
    (useless : Useless tree (keyed id) parse path) {documents documents' : List (Path × Value)}
    (hinserted : Inserted (path, v) documents documents') {items : Items α} {log : Log}
    (h : addDocuments kind id parse [] documents = (log, .ok items)) :
    (Escapes tree (keyed id) parse path → ∃ log' fault,
      addDocuments kind id parse [] documents' = (log', .error fault)) ∧
    (¬ Escapes tree (keyed id) parse path → ∃ entry log', Skips kind path entry ∧ Inserted entry log log' ∧
      addDocuments kind id parse [] documents' = (log', .ok items)) := by
  obtain ⟨front, back, rfl, rfl⟩ := hinserted
  obtain ⟨before, mid, after, hfront, hback, rfl⟩ := of_addDocuments_append_ok h
  have hsplit : addDocuments kind id parse [] (front ++ (path, v) :: back) =
      match addDocument kind id parse mid path v with
      | (log, .error fault) => (before ++ log, .error fault)
      | (log, .ok items) =>
          let (more, result) := addDocuments kind id parse items back
          (before ++ (log ++ more), result) := by
    rw [addDocuments_append, hfront]
    simp only [addDocuments]
    rcases addDocument kind id parse mid path v with ⟨log, _ | items⟩ <;> rfl
  cases hparse : parse path v with
  | ok manifest =>
      have hkey := useless v manifest hdocument hparse
      have hadd : addDocument kind id parse mid path v = ([], .error .wrongType) := by
        simp [addDocument, hparse, show (id manifest).canBeKey = false from hkey]
      rw [hsplit, hadd]
      refine ⟨fun _ => ⟨_, _, rfl⟩, fun hcontained => ?_⟩
      exact absurd (.keyless v manifest hdocument hparse hkey) hcontained
  | error fault =>
      cases hfault : fault.isContentFault with
      | false =>
          have hadd : addDocument kind id parse mid path v = ([], .error fault) := by
            simp [addDocument, hparse, hfault]
          rw [hsplit, hadd]
          refine ⟨fun _ => ⟨_, _, rfl⟩, fun hcontained => ?_⟩
          exact absurd (.unforeseen v fault hdocument hparse hfault) hcontained
      | true =>
          have hadd : addDocument kind id parse mid path v =
              ([faultWarning kind path fault], .ok mid) := by
            simp [addDocument, hparse, hfault]
          rw [hsplit, hadd]
          simp only [hback]
          refine ⟨fun hescapes => ?_, fun _ => ?_⟩
          · exfalso
            cases hescapes with
            | unreadable fault h => cases h.symm.trans hdocument
            | unforeseen v' fault' h hparse' hfault' =>
                cases h.symm.trans hdocument
                cases hparse.symm.trans hparse'
                cases hfault.symm.trans hfault'
            | keyless v' manifest h hparse' =>
                cases h.symm.trans hdocument
                cases hparse.symm.trans hparse'
          · exact ⟨faultWarning kind path fault, _, ⟨fault.reason, .inr rfl⟩,
              ⟨before, after, rfl, rfl⟩, rfl⟩

variable {tree : Tree} {directory : Path} {entries : List (String × Tree)} {names : List String}

/--
One more file below a directory. A file that is no manifest by its name makes
no difference. A manifest of which nothing comes is passed over with a warning
and leaves the items as they are, unless it is one of those that escape: then
there are no items at all.
-/
theorem read_withFile (proper : tree.Proper)
    (hask : tree.ask directory = .ok (some (.directory entries)))
    (room : (Tree.directory entries).HasRoom names) (plain : ".." ∉ names) (f : File)
    (useless : Useless (tree.withFile directory names f) (keyed id) parse
      (Manifests.pathBelow directory names))
    {skipped : List String} {items : Items α} {log : Log}
    (h : read tree directory kind id parse skipped = (log, .ok items)) :
    if Manifests.isListed skipped names then
      (Escapes (tree.withFile directory names f) (keyed id) parse (Manifests.pathBelow directory names) →
        ∃ log' fault, read (tree.withFile directory names f) directory kind id parse skipped =
          (log', .error fault)) ∧
      (¬ Escapes (tree.withFile directory names f) (keyed id) parse (Manifests.pathBelow directory names) →
        ∃ entry log', Skips kind (Manifests.pathBelow directory names) entry ∧
          Inserted entry log log' ∧
          read (tree.withFile directory names f) directory kind id parse skipped =
            (log', .ok items))
    else
      read (tree.withFile directory names f) directory kind id parse skipped = (log, .ok items) := by
  obtain ⟨paths, hfiles, hfiles'⟩ := Manifests.files_withFile hask room plain f skipped
  obtain ⟨log₁, documents, more, hload, hadd, rfl⟩ := read_eq_ok h hfiles
  have hsame : ∀ path ∈ paths, Manifests.document (tree.withFile directory names f) path =
      Manifests.document tree path :=
    fun path hpath => Manifests.document_withFile proper hask room plain f hfiles hpath
  split
  · case isTrue hlisted =>
    rw [if_pos hlisted] at hfiles'
    obtain ⟨paths', hfiles', hinserted⟩ := hfiles'
    obtain ⟨hfault, hunusable, hvalue⟩ := Manifests.loadAll_inserted hinserted hsame hload
    cases hdocument : Manifests.document (tree.withFile directory names f)
        (Manifests.pathBelow directory names) with
    | error fault =>
        refine ⟨fun _ => ?_, fun hcontained => absurd (.unreadable fault hdocument) hcontained⟩
        obtain ⟨log', other, hload'⟩ := hfault fault hdocument
        refine ⟨log', other, ?_⟩
        unfold read
        simp only [hfiles', hload']
    | ok found =>
        cases found with
        | error unusable =>
            obtain ⟨log', hlog, hload'⟩ := hunusable unusable hdocument
            rw [read_eq hfiles' hload', hadd]
            refine ⟨fun hescapes => ?_, fun _ => ?_⟩
            · exact absurd hescapes (not_escapes_of_unusable _ _ _ _ hdocument)
            · exact ⟨_, _, ⟨_, .inl rfl⟩, hlog.append_right more, rfl⟩
        | ok v =>
            obtain ⟨documents', hdocuments, hload'⟩ := hvalue v hdocument
            obtain ⟨hraised, hpassed⟩ := addDocuments_inserted hdocument useless hdocuments hadd
            rw [read_eq hfiles' hload']
            refine ⟨fun hescapes => ?_, fun hcontained => ?_⟩
            · obtain ⟨log', fault, hadd'⟩ := hraised hescapes
              rw [hadd']
              exact ⟨_, fault, rfl⟩
            · obtain ⟨entry, log', hentry, hlog, hadd'⟩ := hpassed hcontained
              rw [hadd']
              exact ⟨entry, _, hentry, hlog.append_left _, rfl⟩
  · case isFalse hlisted =>
    rw [if_neg hlisted] at hfiles'
    rw [read_eq hfiles' ((Manifests.loadAll_congr hsame).trans hload), hadd]

end Collection

end Playbook
