import Mathlib.Data.List.Nodup
import Playbook.Proofs.Store.Reading

/-!
# Reading the features of a project

What one more file in the directory of a feature does to the reading of the
features. A directory counts with one file only, the first by its name.
-/

namespace Playbook

/-! ## The project -/

theorem Manifests.child_project (directory : Path) :
    Manifests.projectFiles.map directory.child =
      [pathBelow directory ["project.yml"], pathBelow directory ["project.yaml"]] := by
  rfl

theorem Manifests.child_feature (directory : Path) :
    Manifests.featureFiles.map directory.child =
      [pathBelow directory ["feature.yml"], pathBelow directory ["feature.yaml"]] := by
  rfl

theorem Manifests.firstFile?_pair (tree : Tree) (directory first second : Path)
    (names : List String) (h : names.map directory.child = [first, second]) :
    firstFile? tree directory names = do
      if ← tree.isFile first then return some first
      else if ← tree.isFile second then return some second
      else return none := by
  rw [firstFile?, h]
  simp only [List.findM?]
  rcases tree.isFile first with fault | _ | _
  · rfl
  · rcases tree.isFile second with fault | _ | _ <;> rfl
  · rfl

theorem Manifests.isFile_of_filled {f : File} {last name : String} {tree tree' : Tree}
    (hfilled : Tree.Filled f last tree tree') (hname : name ≠ last) (directory : Path) :
    tree'.isFile (pathBelow directory [name]) = tree.isFile (pathBelow directory [name]) := by
  refine Tree.isFile_of_filled hfilled ?_
  rw [pathBelow, List.getLast?_append]
  rintro ⟨rfl⟩
  exact hname rfl

/-- Only a project file changes where projects are found. -/
theorem Manifests.holdsFile_of_filled {f : File} {last : String} {tree tree' : Tree}
    (hfilled : Tree.Filled f last tree tree') (hlast : last ∉ projectFiles) :
    holdsFile tree' projectFiles = holdsFile tree projectFiles := by
  have hother : ∀ directory : Path, ∀ name ∈ projectFiles,
      tree'.isFile (pathBelow directory [name]) = tree.isFile (pathBelow directory [name]) :=
    fun directory name hname => isFile_of_filled hfilled (fun heq => hlast (heq ▸ hname)) directory
  funext directory
  unfold holdsFile
  rw [firstFile?_pair _ _ _ _ _ (child_project directory),
    firstFile?_pair _ _ _ _ _ (child_project directory),
    hother directory "project.yml" (by decide), hother directory "project.yaml" (by decide)]

namespace Store

open Work

/-- The directory of a project, apart from the way it is looked up. -/
def projectDir? (store : Store) (id : Value) : Attempt (Option Path) := do
  let dirs ← store.settings.projectDirs
  match id with
  | .text name =>
      (dirs.map (·.child name)).findM? (Manifests.holdsFile store.tree Manifests.projectFiles)
  | _ => if dirs.isEmpty then .ok none else .error .wrongType

theorem exec_findProjectDir (store : Store) (id : Value) (log : Log) :
    exec (findProjectDir id) (store, log) = (store.projectDir? id, store, log) := by
  unfold findProjectDir projectDir?
  rw [exec_bind_ok (exec_state _ _)]
  cases hdirs : store.settings.projectDirs with
  | error fault => rfl
  | ok dirs =>
      rw [exec_bind_ok (exec_attempt _ _)]
      cases id with
      | text name => rfl
      | _ => cases dirs <;> rfl

theorem projectDir?_of_filled {f : File} {last : String} {store : Store} {tree' : Tree}
    (hfilled : Tree.Filled f last store.tree tree') (hlast : last ∉ Manifests.projectFiles)
    (id : Value) : projectDir? { store with tree := tree' } id = projectDir? store id := by
  unfold projectDir?
  rw [Manifests.holdsFile_of_filled hfilled hlast]

end Store

/-! ## The files of features -/

namespace Manifests

variable {tree : Tree} {directory : Path} {name : String} {inner : List (String × Tree)}

/-- A directory below another one, as the listing of directories gives it. -/
theorem of_mem_subdirectories {found : List Path} {path : Path}
    (h : tree.subdirectories directory = .ok found) (hpath : path ∈ found) :
    ∃ entries, tree.ask directory = .ok (some (.directory entries)) ∧
      ∃ entry ∈ entries, entry.2.isBranch ∧ path = pathBelow directory [entry.1] := by
  unfold Tree.subdirectories Tree.entriesAt at h
  cases hask : tree.ask directory with
  | error fault =>
      rw [hask] at h
      cases h
  | ok found' =>
      rw [hask] at h
      rcases found' with _ | ⟨g⟩ | ⟨entries⟩
      · cases h
        simp [Path.sort] at hpath
      · cases h
        simp [Path.sort] at hpath
      · cases h
        obtain ⟨entry, hentry, rfl⟩ := List.mem_map.1 (Path.mem_sort.1 hpath)
        obtain ⟨hmem, hbranch⟩ := List.mem_filter.1 hentry
        exact ⟨entries, rfl, entry, hmem, hbranch, rfl⟩

theorem map_branches_put (child : Tree) {old : Tree} {entries : List (String × Tree)}
    (hold : entries.lookup name = some old) (hbranch : old.isBranch = child.isBranch) :
    (((Tree.put name child entries).filter (·.2.isBranch)).map fun entry => entry.1) =
      (entries.filter (·.2.isBranch)).map fun entry => entry.1 := by
  induction entries with
  | nil => cases hold
  | cons entry entries ih =>
      obtain ⟨own, tree⟩ := entry
      by_cases hown : own = name
      · subst hown
        rw [List.lookup_cons_self] at hold
        cases hold
        rw [Tree.put, if_pos rfl]
        cases hchild : child.isBranch <;> rw [hchild] at hbranch <;> simp [hchild, hbranch]
      · rw [List.lookup_cons, beq_false_of_ne (Ne.symm hown)] at hold
        rw [Tree.put, if_neg hown]
        have hrest := ih hold
        cases htree : tree.isBranch <;> simp [htree, hrest]

/-- A directory of features with one of them, in which a file has place. -/
structure Site (tree : Tree) (features : Path) (dirs : List Path) (directory : Path)
    (inner : List (String × Tree)) (name : String) : Prop where
  proper : tree.Proper
  listed : tree.subdirectories features = .ok dirs
  mem : directory ∈ dirs
  ask : tree.ask directory = .ok (some (.directory inner))
  free : inner.lookup name = none
  plain : ".." ≠ name

variable {features : Path} {dirs : List Path}

theorem plain_of_mem_featureFiles (h : name ∈ featureFiles) : ".." ≠ name := by
  rintro rfl
  exact absurd h (by decide)

/-- The names that lead to the site from the directory of features. -/
theorem Site.exists_entry (site : Site tree features dirs directory inner name) :
    ∃ entries sub, tree.ask features = .ok (some (.directory entries)) ∧
      directory = pathBelow features [sub] ∧ sub ≠ ".." ∧
      entries.lookup sub = some (.directory inner) ∧
      (Tree.directory entries).Proper := by
  obtain ⟨entries, hask, entry, hentry, -, hdirectory⟩ := of_mem_subdirectories site.listed site.mem
  obtain ⟨-, hlook⟩ := Tree.ask_eq_some_iff.1 hask
  obtain ⟨-, hfollow⟩ := Tree.look_eq_ok_iff.1 hlook
  have hproper : (Tree.directory entries).Proper :=
    Tree.proper_of_follow (by simp) site.proper hfollow
  obtain ⟨hup, hlookup, -⟩ := Tree.ProperEntries.of_mem hproper hentry
  refine ⟨entries, entry.1, hask, hdirectory, hup, ?_, hproper⟩
  obtain ⟨-, hinner⟩ := Tree.ask_eq_some_iff.1 site.ask
  have hplain : ".." ∉ [entry.1] := by simpa using Ne.symm hup
  have hbelow := Tree.look_below hlook hplain
  rw [hdirectory, pathBelow, hbelow] at hinner
  split at hinner
  · cases hinner
  · obtain ⟨-, child, hchild, hfound⟩ := Tree.exists_child hup hinner
    cases hfound
    exact hchild

/-- The directory of features with the new file in it. -/
theorem Site.ask_features (site : Site tree features dirs directory inner name)
    {entries : List (String × Tree)} {sub : String}
    (hask : tree.ask features = .ok (some (.directory entries)))
    (hdirectory : directory = pathBelow features [sub]) (hup : sub ≠ "..")
    (hlookup : entries.lookup sub = some (.directory inner)) (f : File) :
    (tree.withFile directory [name] f).ask features = .ok (some (.directory
      (Tree.put sub (.directory (Tree.put name (.file f) inner)) entries))) := by
  obtain ⟨hzero, hlook⟩ := Tree.ask_eq_some_iff.1 hask
  have hroom : (Tree.directory entries).HasRoom [sub, name] := by
    intro child hchild
    cases hlookup.symm.trans hchild
    exact site.free
  have hplain : ".." ∉ [sub, name] := by
    simp [Ne.symm hup, site.plain]
  obtain ⟨hnew, -⟩ := Tree.look_withFile hlook hroom hplain f
  have htree : tree.withFile directory [name] f = tree.withFile features [sub, name] f := by
    rw [hdirectory, Tree.withFile, Tree.withFile, pathBelow]
    simp
  rw [htree]
  refine Tree.ask_eq_some_iff.2 ⟨hzero, hnew.trans ?_⟩
  rw [Tree.insert_cons, Tree.insert_cons, Tree.children, hlookup, Option.getD_some, Tree.children,
    site.free, Option.getD_none, Tree.insert]
  rfl

theorem Site.subdirectories_eq (site : Site tree features dirs directory inner name) (f : File) :
    (tree.withFile directory [name] f).subdirectories features = .ok dirs := by
  obtain ⟨entries, sub, hask, hdirectory, hup, hlookup, -⟩ := site.exists_entry
  have hask' := site.ask_features hask hdirectory hup hlookup f
  rw [← site.listed, Tree.subdirectories, Tree.subdirectories, Tree.entriesAt_eq hask',
    Tree.entriesAt_eq hask]
  have hbranches := map_branches_put (.directory (Tree.put name (.file f) inner)) hlookup rfl
  have hpaths := congrArg (List.map fun own => pathBelow features [own]) hbranches
  rw [List.map_map, List.map_map] at hpaths
  exact congrArg (fun paths => Except.ok (Path.sort paths)) hpaths

theorem isFile_congr {tree' : Tree} {path : Path} (h : tree'.look path = tree.look path) :
    tree'.isFile path = tree.isFile path := by
  rw [Tree.isFile, Tree.isFile, Tree.ask, Tree.ask, h]

theorem firstFile?_feature (tree : Tree) (directory : Path) :
    firstFile? tree directory featureFiles = do
      if ← tree.isFile (pathBelow directory ["feature.yml"]) then
        return some (pathBelow directory ["feature.yml"])
      else if ← tree.isFile (pathBelow directory ["feature.yaml"]) then
        return some (pathBelow directory ["feature.yaml"])
      else return none :=
  firstFile?_pair _ _ _ _ _ (child_feature directory)

/-- The other directories hold what they held. -/
theorem Site.firstFile?_other (site : Site tree features dirs directory inner name) (f : File)
    {other : Path} (hother : other ∈ dirs) (hne : other ≠ directory) :
    firstFile? (tree.withFile directory [name] f) other featureFiles =
      firstFile? tree other featureFiles := by
  obtain ⟨entries, sub, hask, hdirectory, hup, hlookup, hproper⟩ := site.exists_entry
  have hask' := site.ask_features hask hdirectory hup hlookup f
  obtain ⟨-, hlook⟩ := Tree.ask_eq_some_iff.1 hask
  obtain ⟨-, hlook'⟩ := Tree.ask_eq_some_iff.1 hask'
  obtain ⟨entries', hentries, entry, hentry, -, rfl⟩ := of_mem_subdirectories site.listed hother
  cases hask.symm.trans hentries
  obtain ⟨hup', hlookup', -⟩ := Tree.ProperEntries.of_mem hproper hentry
  have hsub : entry.1 ≠ sub := by
    rintro rfl
    exact hne hdirectory.symm
  have hsame : ∀ own, ".." ≠ own → (tree.withFile directory [name] f).isFile
      (pathBelow (pathBelow features [entry.1]) [own]) =
        tree.isFile (pathBelow (pathBelow features [entry.1]) [own]) := by
    intro own hown
    have hplain : ".." ∉ [entry.1, own] := by simp [Ne.symm hup', hown]
    have hpath : pathBelow (pathBelow features [entry.1]) [own] =
        { features with names := features.names ++ [entry.1, own] } := by
      simp [pathBelow]
    refine isFile_congr ?_
    rw [hpath, Tree.look_below hlook hplain, Tree.look_below hlook' hplain]
    by_cases hlong : Tree.nameLimit < entry.1.utf8ByteSize
    · rw [Tree.follow_long hup' hlong, Tree.follow_long hup' hlong]
    · rw [Tree.follow_down hup' hlong, Tree.follow_down hup' hlong, Tree.lookup_put, if_neg hsub,
        hlookup']
      have hplain' : ".." ∉ [own] := by simpa using hown
      simp only [Tree.follow_plain hplain' _ []]
  rw [firstFile?_feature, firstFile?_feature, hsame "feature.yml" (by decide),
    hsame "feature.yaml" (by decide)]

theorem isFile_below (hask : tree.ask directory = .ok (some (.directory inner))) {own : String}
    (hown : own ∈ featureFiles) :
    tree.isFile (pathBelow directory [own]) =
      if Tree.pathLimit < (pathBelow directory [own]).text.utf8ByteSize then
        .error (.file .nameTooLong (pathBelow directory [own]).text)
      else .ok (match inner.lookup own with
        | some (.file _) => true
        | _ => false) := by
  obtain ⟨hzero, hlook⟩ := Tree.ask_eq_some_iff.1 hask
  have hplain : ".." ∉ [own] := by simpa using plain_of_mem_featureFiles hown
  have hup : own ≠ ".." := Ne.symm (plain_of_mem_featureFiles hown)
  have hbounds : ∀ own ∈ featureFiles,
      ¬ Tree.nameLimit < own.utf8ByteSize ∧ own.toList.contains '\x00' = false := by
    decide
  obtain ⟨hlong, hclean⟩ := hbounds own hown
  have hzero' : (pathBelow directory [own]).holdsZero = false := by
    unfold Path.holdsZero at hzero ⊢
    rw [pathBelow, List.any_append, hzero, List.any_cons, hclean]
    rfl
  have hpath : tree.look (pathBelow directory [own]) = _ := Tree.look_below hlook hplain
  rw [Tree.isFile, Tree.ask, hzero', hpath, Tree.follow_down hup hlong]
  by_cases hlimit : Tree.pathLimit < (pathBelow directory [own]).text.utf8ByteSize
  · rw [if_pos hlimit]
    simp only [pathBelow] at hlimit
    rw [if_pos hlimit]
    rfl
  · rw [if_neg hlimit]
    simp only [pathBelow] at hlimit
    rw [if_neg hlimit]
    cases inner.lookup own with
    | none => rfl
    | some child => cases child <;> rfl

/-- In the directory itself only the name of the new file leads to something new. -/
theorem Site.isFile_own (site : Site tree features dirs directory inner name) (f : File)
    {own : String} (hown : own ∈ featureFiles) :
    (tree.withFile directory [name] f).isFile (pathBelow directory [own]) =
      (tree.isFile (pathBelow directory [own])).map fun there => own == name || there := by
  obtain ⟨hzero, hlook⟩ := Tree.ask_eq_some_iff.1 site.ask
  have hplain : ".." ∉ [name] := by simpa using site.plain
  have hroom : (Tree.directory inner).HasRoom [name] := site.free
  obtain ⟨hnew, -⟩ := Tree.look_withFile hlook hroom hplain f
  rw [Tree.insert_cons, Tree.children, site.free, Option.getD_none, Tree.insert] at hnew
  have hask' := Tree.ask_eq_some_iff.2 ⟨hzero, hnew⟩
  rw [isFile_below hask' hown, isFile_below site.ask hown]
  split
  · rfl
  · rw [Tree.lookup_put]
    by_cases hname : own = name
    · subst hname
      simp [Except.map, Tree.covering, Tree.empty]
    · simp [hname, Except.map]

/-- A file with the name of a feature file is the first of its directory, if there was none. -/
theorem Site.firstFile?_none (site : Site tree features dirs directory inner name) (f : File)
    (h : firstFile? tree directory featureFiles = .ok none) :
    firstFile? (tree.withFile directory [name] f) directory featureFiles =
      .ok (if name ∈ featureFiles then some (pathBelow directory [name]) else none) := by
  rw [firstFile?_feature] at h ⊢
  rw [site.isFile_own f (by decide), site.isFile_own f (by decide)]
  rcases hyml : tree.isFile (pathBelow directory ["feature.yml"]) with fault | _ | _ <;>
    rw [hyml] at h
  · cases h
  · rcases hyaml : tree.isFile (pathBelow directory ["feature.yaml"]) with fault | _ | _ <;>
      rw [hyaml] at h
    · cases h
    · by_cases hfirst : "feature.yml" = name
      · subst hfirst
        rfl
      · by_cases hsecond : "feature.yaml" = name
        · subst hsecond
          rfl
        · have hname : name ∉ featureFiles := by
            simp [featureFiles, Ne.symm hfirst, Ne.symm hsecond]
          rw [if_neg hname]
          simp only [Except.map, beq_false_of_ne hfirst, beq_false_of_ne hsecond, Bool.or_false]
          rfl
    · cases h
  · cases h

/-- Where there was a first file, there is one. -/
theorem Site.firstFile?_some (site : Site tree features dirs directory inner name) (f : File)
    {path : Path} (h : firstFile? tree directory featureFiles = .ok (some path)) :
    ∃ path', firstFile? (tree.withFile directory [name] f) directory featureFiles =
      .ok (some path') := by
  rw [firstFile?_feature] at h ⊢
  rw [site.isFile_own f (by decide), site.isFile_own f (by decide)]
  rcases hyml : tree.isFile (pathBelow directory ["feature.yml"]) with fault | _ | _ <;>
    rw [hyml] at h
  · cases h
  · rcases hyaml : tree.isFile (pathBelow directory ["feature.yaml"]) with fault | _ | _ <;>
      rw [hyaml] at h
    · cases h
    · cases h
    · simp only [Except.map, Bool.or_false, Bool.or_true]
      cases "feature.yml" == name with
      | true => exact ⟨_, rfl⟩
      | false => exact ⟨_, rfl⟩
  · simp only [Except.map, Bool.or_true]
    exact ⟨_, rfl⟩

theorem nodup_of_properEntries {entries : List (String × Tree)}
    (h : Tree.ProperEntries entries) : (entries.map (·.1)).Nodup := by
  induction entries with
  | nil => exact List.nodup_nil
  | cons entry entries ih =>
      obtain ⟨-, hfresh, -, hrest⟩ := h
      exact List.nodup_cons.2 ⟨hfresh, ih hrest⟩

theorem Site.nodup (site : Site tree features dirs directory inner name) : dirs.Nodup := by
  obtain ⟨entries, sub, hask, -, -, -, hproper⟩ := site.exists_entry
  have hlisted := site.listed
  rw [Tree.subdirectories, Tree.entriesAt_eq hask] at hlisted
  cases hlisted
  rw [(Path.sort_perm _).nodup_iff]
  have hnames : ((entries.filter (·.2.isBranch)).map (·.1)).Nodup :=
    (nodup_of_properEntries hproper).sublist (List.filter_sublist.map _)
  have hinjective : Function.Injective fun own : String => pathBelow features [own] := by
    intro own other heq
    simpa [pathBelow] using heq
  have hpaths := hnames.map hinjective
  rw [List.map_map] at hpaths
  exact hpaths

/-- A file is the feature file of its directory, which has no other one. -/
def Alone (tree : Tree) (directory : Path) (name : String) : Prop :=
  name ∈ featureFiles ∧ firstFile? tree directory featureFiles = .ok none

/-- The files of features with a new one: one more of them, or as many as before. -/
theorem Site.filterMapM_firstFile? (site : Site tree features dirs directory inner name) (f : File)
    {paths : List Path}
    (h : (dirs.filterMapM fun path => firstFile? tree path featureFiles) = .ok paths) :
    ∃ paths', (dirs.filterMapM fun path =>
        firstFile? (tree.withFile directory [name] f) path featureFiles) = .ok paths' ∧
      (Alone tree directory name → Inserted (pathBelow directory [name]) paths paths') ∧
      (¬ Alone tree directory name → paths'.length = paths.length) := by
  obtain ⟨hall, rfl⟩ := Attempt.of_filterMapM_ok h
  obtain ⟨before, after, hdirs⟩ := List.append_of_mem site.mem
  have hfresh := site.nodup
  rw [hdirs, List.nodup_middle, List.nodup_cons, List.mem_append, not_or] at hfresh
  have hother : ∀ other ∈ dirs, other ≠ directory →
      firstFile? (tree.withFile directory [name] f) other featureFiles =
        firstFile? tree other featureFiles :=
    fun other hmem hne => site.firstFile?_other f hmem hne
  have hsame : ∀ part : List Path, (∀ other ∈ part, other ∈ dirs ∧ other ≠ directory) →
      part.filterMap (Attempt.chosen? fun path =>
        firstFile? (tree.withFile directory [name] f) path featureFiles) =
      part.filterMap (Attempt.chosen? fun path => firstFile? tree path featureFiles) :=
    fun part hpart => List.filterMap_congr fun other hmem => by
      rw [Attempt.chosen?, Attempt.chosen?, hother other (hpart other hmem).1 (hpart other hmem).2]
  have hbefore := hsame before fun other hmem =>
    ⟨by simp [hdirs, hmem], fun heq => hfresh.1.1 (heq ▸ hmem)⟩
  have hafter := hsame after fun other hmem =>
    ⟨by simp [hdirs, hmem], fun heq => hfresh.1.2 (heq ▸ hmem)⟩
  have hown : ∃ result, firstFile? (tree.withFile directory [name] f) directory featureFiles =
      .ok result := by
    obtain ⟨result, hresult⟩ := hall directory site.mem
    cases result with
    | none => exact ⟨_, site.firstFile?_none f hresult⟩
    | some path =>
        obtain ⟨path', hpath'⟩ := site.firstFile?_some f hresult
        exact ⟨_, hpath'⟩
  refine ⟨_, Attempt.filterMapM_eq_ok fun path hpath => ?_, ?_⟩
  · by_cases hdirectory : path = directory
    · rw [hdirectory]
      exact hown
    · rw [hother path hpath hdirectory]
      exact hall path hpath
  · obtain ⟨result, hresult⟩ := hall directory site.mem
    have hchosen : Attempt.chosen? (fun path => firstFile? tree path featureFiles) directory = result := by
      rw [Attempt.chosen?, hresult]
    rw [Alone, hresult, hdirs, List.filterMap_append, List.filterMap_append, hbefore,
      List.filterMap_cons, List.filterMap_cons, hafter, hchosen]
    cases result with
    | none =>
        rw [Attempt.chosen?, site.firstFile?_none f hresult]
        by_cases hname : name ∈ featureFiles
        · rw [if_pos hname]
          exact ⟨fun _ => ⟨_, _, rfl, rfl⟩, fun hnot => absurd ⟨hname, rfl⟩ hnot⟩
        · rw [if_neg hname]
          exact ⟨fun halone => absurd halone.1 hname, fun _ => rfl⟩
    | some path =>
        obtain ⟨path', hpath'⟩ := site.firstFile?_some f hresult
        rw [Attempt.chosen?, hpath']
        refine ⟨fun halone => ?_, by simp⟩
        cases halone.2

theorem isFile_of_firstFile? {names : List String} {path : Path}
    (h : firstFile? tree directory names = .ok (some path)) : tree.isFile path = .ok true := by
  unfold firstFile? at h
  generalize names.map directory.child = paths at h
  induction paths with
  | nil => cases h
  | cons first rest ih =>
      rw [List.findM?] at h
      obtain ⟨there, hthere, h⟩ := Attempt.of_bind_ok h
      cases there with
      | true =>
          cases h
          exact hthere
      | false => exact ih h

/-- What was read from the files of features is still there to be read. -/
theorem Site.document_eq (site : Site tree features dirs directory inner name) (f : File)
    {paths : List Path}
    (h : (dirs.filterMapM fun path => firstFile? tree path featureFiles) = .ok paths)
    {path : Path} (hpath : path ∈ paths) :
    document (tree.withFile directory [name] f) path = document tree path := by
  obtain ⟨hall, rfl⟩ := Attempt.of_filterMapM_ok h
  obtain ⟨other, hother, hchosen⟩ := List.mem_filterMap.1 hpath
  obtain ⟨result, hresult⟩ := hall other hother
  rw [Attempt.chosen?, hresult] at hchosen
  subst hchosen
  obtain ⟨-, hlook⟩ := Tree.ask_eq_some_iff.1 site.ask
  have hroom : (Tree.directory inner).HasRoom [name] := site.free
  have hplain : ".." ∉ [name] := by simpa using site.plain
  obtain ⟨-, hgrown⟩ := Tree.look_withFile hlook hroom hplain f
  obtain ⟨g, hfile⟩ := Tree.exists_file_of_isFile (isFile_of_firstFile? hresult)
  have hsame := Tree.look_grown hgrown path (.inl ⟨g, hfile⟩)
  rw [document, document, Tree.document, Tree.document, Tree.open?, Tree.open?, hsame]

end Manifests

/-! ## Features -/

namespace Store

open Work

/-- A document that gives a feature, or is passed over. -/
def Passable (entry : Path × Value) : Prop :=
  ∀ fault, parseFeature entry.1 entry.2 = .error fault → fault.isContentFault = true

def parsed? (entry : Path × Value) : Option Feature :=
  match parseFeature entry.1 entry.2 with
  | .ok feature => some feature
  | .error _ => none

def warned? (entry : Path × Value) : Option LogEntry :=
  match parseFeature entry.1 entry.2 with
  | .ok _ => none
  | .error fault => some (Collection.faultWarning "feature" entry.1 fault)

theorem exec_addFeatures {documents : List (Path × Value)}
    (h : ∀ entry ∈ documents, Passable entry) (features : List Feature) (store : Store)
    (log : Log) :
    exec (documents.foldlM addFeature features) (store, log) =
      (.ok (features ++ documents.filterMap parsed?), store,
        log ++ documents.filterMap warned?) := by
  induction documents generalizing features log with
  | nil => simp
  | cons entry documents ih =>
      have hrest := ih fun other hother => h other (List.mem_cons_of_mem _ hother)
      rw [List.foldlM_cons, List.filterMap_cons, List.filterMap_cons]
      cases hparse : parseFeature entry.1 entry.2 with
      | ok feature =>
          have hadd : exec (addFeature features entry) (store, log) =
              (.ok (features ++ [feature]), store, log) := by
            simp [addFeature, hparse]
          rw [exec_bind_ok hadd, hrest, parsed?, warned?, hparse, List.append_assoc]
          rfl
      | error fault =>
          have hfault := h entry List.mem_cons_self fault hparse
          have hadd : exec (addFeature features entry) (store, log) =
              (.ok features, store, log ++ [Collection.faultWarning "feature" entry.1 fault]) := by
            simp only [addFeature, hparse, hfault, if_true]
            rfl
          rw [exec_bind_ok hadd, hrest, parsed?, warned?, hparse, List.append_assoc]
          rfl

theorem passable_of_addFeatures {documents : List (Path × Value)} {features kept : List Feature}
    {s t : Store × Log} (h : exec (documents.foldlM addFeature features) s = (.ok kept, t)) :
    ∀ entry ∈ documents, Passable entry := by
  induction documents generalizing features s with
  | nil => simp
  | cons entry documents ih =>
      rw [List.foldlM_cons] at h
      obtain ⟨more, mid, hadd, h⟩ := of_exec_bind_ok h
      intro other hother
      rcases List.mem_cons.1 hother with rfl | hother
      · intro fault hparse
        rw [addFeature, hparse] at hadd
        by_contra hfault
        simp [hfault] at hadd
      · exact ih h other hother

/-- The features of a project whose directory is known. -/
theorem exec_loadFeatures {store : Store} {project : Value} {dir : Path}
    (hdir : store.projectDir? project = .ok (some dir)) (log : Log) :
    exec (loadFeatures project) (store, log) =
      match featureFiles store.tree dir with
      | .error fault => (.error fault, store, log)
      | .ok paths =>
          match Manifests.loadAll store.tree paths with
          | (own, .error fault) => (.error fault, store, log ++ own)
          | (own, .ok documents) => exec (documents.foldlM addFeature []) (store, log ++ own) := by
  have hfind := exec_findProjectDir store project log
  rw [hdir] at hfind
  unfold loadFeatures
  rw [exec_bind_ok hfind]
  simp only [exec_bind, exec_state, exec_attempt]
  cases featureFiles store.tree dir with
  | error fault => rfl
  | ok paths =>
      simp only [exec_tell]
      rcases Manifests.loadAll store.tree paths with ⟨own, _ | documents⟩ <;> rfl

theorem of_exec_loadFeatures_ok {store : Store} {project : Value} {dir : Path}
    (hdir : store.projectDir? project = .ok (some dir)) {features : List Feature}
    {before log : Log} {t : Store}
    (h : exec (loadFeatures project) (store, before) = (.ok features, t, log)) :
    ∃ paths own documents, t = store ∧ featureFiles store.tree dir = .ok paths ∧
      Manifests.loadAll store.tree paths = (own, .ok documents) ∧
      (∀ entry ∈ documents, Passable entry) ∧ features = documents.filterMap parsed? ∧
      log = before ++ (own ++ documents.filterMap warned?) := by
  rw [exec_loadFeatures hdir] at h
  cases hpaths : featureFiles store.tree dir with
  | error fault =>
      rw [hpaths] at h
      cases h
  | ok paths =>
      rw [hpaths] at h
      rcases hload : Manifests.loadAll store.tree paths with ⟨own, _ | documents⟩
      · simp only [hload] at h
        cases h
      · simp only [hload] at h
        have hpassable := passable_of_addFeatures h
        rw [exec_addFeatures hpassable] at h
        cases h
        exact ⟨paths, own, documents, rfl, rfl, hload, hpassable, by simp, by simp⟩

theorem length_filterMap_add {α β γ : Type} {l : List α} {f : α → Option β} {g : α → Option γ}
    (h : ∀ a ∈ l, (f a).isSome = !(g a).isSome) :
    (l.filterMap f).length + (l.filterMap g).length = l.length := by
  induction l with
  | nil => rfl
  | cons a l ih =>
      have hrest := ih fun b hb => h b (List.mem_cons_of_mem _ hb)
      have hfirst := h a List.mem_cons_self
      rw [List.filterMap_cons, List.filterMap_cons]
      cases hf : f a <;> cases hg : g a <;> simp [hf, hg] at hfirst <;>
        simp only [List.length_cons] <;> omega

/-- Each file of a feature gives a feature or a warning. -/
theorem length_loadFeatures {store : Store} {project : Value} {dir : Path}
    (hdir : store.projectDir? project = .ok (some dir)) {paths : List Path}
    (hpaths : featureFiles store.tree dir = .ok paths) {features : List Feature} {log : Log}
    {t : Store} (h : exec (loadFeatures project) (store, []) = (.ok features, t, log)) :
    features.length + log.length = paths.length := by
  obtain ⟨paths', own, documents, -, hpaths', hload, -, rfl, rfl⟩ :=
    of_exec_loadFeatures_ok hdir h
  rw [List.nil_append]
  cases hpaths.symm.trans hpaths'
  obtain ⟨hfound, rfl, rfl⟩ := Manifests.loadAll_eq_ok hload
  have hread : ∀ path ∈ paths, (Manifests.skipped? store.tree path).isSome =
      !(Manifests.loaded? store.tree path).isSome := by
    intro path hpath
    obtain ⟨found, hfound⟩ := hfound path hpath
    cases found <;> simp [Manifests.skipped?, Manifests.loaded?, hfound]
  have hparsed : ∀ entry ∈ paths.filterMap (Manifests.loaded? store.tree),
      (parsed? entry).isSome = !(warned? entry).isSome := by
    intro entry _
    unfold parsed? warned?
    cases parseFeature entry.1 entry.2 <;> rfl
  have hfiles := length_filterMap_add hread
  have hdocuments := length_filterMap_add hparsed
  rw [List.length_append]
  omega

section

variable {store : Store} {project : Value} {dir directory : Path} {dirs : List Path}
variable {inner : List (String × Tree)} {name : String} {features : List Feature} {log : Log}
variable {t : Store}

theorem projectDir?_withFile
    (site : Manifests.Site store.tree (dir.child "features") dirs directory inner name)
    (hname : name ∉ Manifests.projectFiles) (f : File) (project : Value) :
    projectDir? { store with tree := store.tree.withFile directory [name] f } project =
      projectDir? store project := by
  obtain ⟨-, hlook⟩ := Tree.ask_eq_some_iff.1 site.ask
  have hplace : (Tree.directory inner).HasPlace [name] := site.free
  have hplain : ".." ∉ [name] := by simpa using site.plain
  exact projectDir?_of_filled (Tree.filled_withFile hlook hplace hplain rfl f) hname project

theorem featureFiles_eq {tree : Tree}
    (hlisted : tree.subdirectories (dir.child "features") = .ok dirs) :
    featureFiles tree dir =
      dirs.filterMapM fun path => Manifests.firstFile? tree path Manifests.featureFiles := by
  rw [featureFiles, hlisted]
  rfl

/-- The reading of the features with the only file of a feature among them. -/
private theorem of_alone
    (site : Manifests.Site store.tree (dir.child "features") dirs directory inner name) (f : File)
    (hdir : store.projectDir? project = .ok (some dir))
    (halone : Manifests.Alone store.tree directory name)
    (h : exec (loadFeatures project) (store, []) = (.ok features, t, log)) :
    ∃ paths paths' own documents,
      featureFiles (store.tree.withFile directory [name] f) dir = .ok paths' ∧
      Inserted (Manifests.pathBelow directory [name]) paths paths' ∧
      (∀ path ∈ paths, Manifests.document (store.tree.withFile directory [name] f) path =
        Manifests.document store.tree path) ∧
      Manifests.loadAll store.tree paths = (own, .ok documents) ∧
      (∀ entry ∈ documents, Passable entry) ∧ features = documents.filterMap parsed? ∧
      log = own ++ documents.filterMap warned? := by
  obtain ⟨paths, own, documents, -, hpaths, hload, hpassable, hfeatures, hlog⟩ :=
    of_exec_loadFeatures_ok hdir h
  rw [featureFiles_eq site.listed] at hpaths
  obtain ⟨paths', hpaths', hinserted, -⟩ := site.filterMapM_firstFile? f hpaths
  rw [← featureFiles_eq (site.subdirectories_eq f)] at hpaths'
  exact ⟨paths, paths', own, documents, hpaths', hinserted halone,
    fun path hpath => site.document_eq f hpaths hpath, hload, hpassable, hfeatures, hlog⟩

/-- The only file of a feature gives the reading up if it escapes. -/
theorem loadFeatures_of_escapes
    (site : Manifests.Site store.tree (dir.child "features") dirs directory inner name)
    (hname : name ∉ Manifests.projectFiles) {f : File}
    (hdir : store.projectDir? project = .ok (some dir))
    (halone : Manifests.Alone store.tree directory name)
    (hescapes : Collection.Escapes (store.tree.withFile directory [name] f) (fun _ => true)
      parseFeature (Manifests.pathBelow directory [name]))
    (h : exec (loadFeatures project) (store, []) = (.ok features, t, log)) :
    ∃ fault s, exec (loadFeatures project)
      ({ store with tree := store.tree.withFile directory [name] f }, []) = (.error fault, s) := by
  have hdir' := (projectDir?_withFile site hname f project).trans hdir
  obtain ⟨paths, paths', own, documents, hpaths', hinserted, hsame, hload, -, -, -⟩ :=
    of_alone site f hdir halone h
  obtain ⟨hfault, -, hvalue⟩ := Manifests.loadAll_inserted hinserted hsame hload
  rw [exec_loadFeatures hdir', hpaths']
  cases hescapes with
  | unreadable fault hdocument =>
      obtain ⟨log', other, hload'⟩ := hfault fault hdocument
      simp only [hload']
      exact ⟨_, _, rfl⟩
  | unforeseen v fault hdocument hparse hcontent =>
      obtain ⟨documents', hdocuments, hload'⟩ := hvalue v hdocument
      simp only [hload']
      rcases hadd : exec (documents'.foldlM addFeature [])
        ({ store with tree := store.tree.withFile directory [name] f }, [] ++ own) with ⟨kept, s⟩
      cases kept with
      | error other => exact ⟨other, s, rfl⟩
      | ok kept =>
          have hpassable := passable_of_addFeatures hadd _ (hdocuments.mem_iff.2 (.inl rfl))
          cases hcontent.symm.trans (hpassable fault hparse)
  | keyless v feature hdocument hparse hkey => cases hkey

/-- The only file of a feature is passed over with a warning if it does not escape. -/
theorem loadFeatures_of_not_escapes
    (site : Manifests.Site store.tree (dir.child "features") dirs directory inner name)
    (hname : name ∉ Manifests.projectFiles) {f : File}
    (hdir : store.projectDir? project = .ok (some dir))
    (halone : Manifests.Alone store.tree directory name)
    (useless : Collection.Useless (store.tree.withFile directory [name] f) (fun _ => true)
      parseFeature (Manifests.pathBelow directory [name]))
    (hcontained : ¬ Collection.Escapes (store.tree.withFile directory [name] f) (fun _ => true)
      parseFeature (Manifests.pathBelow directory [name]))
    (h : exec (loadFeatures project) (store, []) = (.ok features, t, log)) :
    ∃ entry log', Collection.Skips "feature" (Manifests.pathBelow directory [name]) entry ∧
      Inserted entry log log' ∧
      exec (loadFeatures project)
        ({ store with tree := store.tree.withFile directory [name] f }, []) =
          (.ok features, { store with tree := store.tree.withFile directory [name] f }, log') := by
  have hdir' := (projectDir?_withFile site hname f project).trans hdir
  obtain ⟨paths, paths', own, documents, hpaths', hinserted, hsame, hload, hpassable, rfl, rfl⟩ :=
    of_alone site f hdir halone h
  obtain ⟨-, hunusable, hvalue⟩ := Manifests.loadAll_inserted hinserted hsame hload
  rw [exec_loadFeatures hdir', hpaths']
  cases hdocument : Manifests.document (store.tree.withFile directory [name] f)
      (Manifests.pathBelow directory [name]) with
  | error fault => exact absurd (.unreadable fault hdocument) hcontained
  | ok found =>
      cases found with
      | error unusable =>
          obtain ⟨log', hlog, hload'⟩ := hunusable unusable hdocument
          simp only [hload']
          rw [exec_addFeatures hpassable]
          exact ⟨_, _, ⟨_, .inl rfl⟩, hlog.append_right _, by simp⟩
      | ok v =>
          obtain ⟨documents', hdocuments, hload'⟩ := hvalue v hdocument
          simp only [hload']
          cases hparse : parseFeature (Manifests.pathBelow directory [name]) v with
          | ok feature => cases useless v feature hdocument hparse
          | error fault =>
              have hcontent : fault.isContentFault = true := by
                by_contra hcontent
                exact hcontained (.unforeseen v fault hdocument hparse (by simpa using hcontent))
              have hpassable' : ∀ entry ∈ documents', Passable entry := by
                intro entry hentry other hother
                rcases hdocuments.mem_iff.1 hentry with rfl | hentry
                · cases hparse.symm.trans hother
                  exact hcontent
                · exact hpassable entry hentry other hother
              have hparsed : parsed? (Manifests.pathBelow directory [name], v) = none := by
                rw [parsed?, hparse]
              have hwarned : warned? (Manifests.pathBelow directory [name], v) =
                  some (Collection.faultWarning "feature" (Manifests.pathBelow directory [name])
                    fault) := by
                rw [warned?, hparse]
              rw [exec_addFeatures hpassable', hdocuments.filterMap_none hparsed]
              exact ⟨_, _, ⟨_, .inr rfl⟩, (hdocuments.filterMap_some hwarned).append_left own,
                by simp⟩

/-- Any other file leaves as many features and warnings as there were. -/
theorem length_loadFeatures_of_not_alone
    (site : Manifests.Site store.tree (dir.child "features") dirs directory inner name)
    (hname : name ∉ Manifests.projectFiles) (f : File)
    (hdir : store.projectDir? project = .ok (some dir))
    (halone : ¬ Manifests.Alone store.tree directory name)
    (h : exec (loadFeatures project) (store, []) = (.ok features, t, log))
    {features' : List Feature} {log' : Log} {t' : Store}
    (h' : exec (loadFeatures project)
      ({ store with tree := store.tree.withFile directory [name] f }, []) =
        (.ok features', t', log')) :
    features'.length + log'.length = features.length + log.length := by
  have hdir' := (projectDir?_withFile site hname f project).trans hdir
  obtain ⟨paths, own, documents, -, hpaths, -⟩ := of_exec_loadFeatures_ok hdir h
  rw [length_loadFeatures hdir hpaths h]
  rw [featureFiles_eq site.listed] at hpaths
  obtain ⟨paths', hpaths', -, hlength⟩ := site.filterMapM_firstFile? f hpaths
  rw [← featureFiles_eq (site.subdirectories_eq f)] at hpaths'
  rw [length_loadFeatures hdir' hpaths' h', hlength halone]

end

end Store

end Playbook
