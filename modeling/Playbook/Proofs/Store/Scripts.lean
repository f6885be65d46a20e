import Playbook.Proofs.Store.Projects
import Playbook.Proofs.Tree.Writing

/-!
# Features and scripts

Features are read from files that are no scripts, so that a directory has the
same features after scripts have been written, wherever these come to lie.
-/

namespace Playbook

open Tree (IsScript ScriptStep Scripted)

/-! ## Names of scripts -/

/-- A path that is made to end in the ending of scripts is that of a script. -/
theorem Path.exists_script (directory : Path) (name : String) :
    ∃ init last, (directory.child (name ++ ".sh")).names = init ++ [last] ∧ IsScript last := by
  have hslash : '/' ∉ ".sh".toList := by decide
  obtain ⟨front, hlast⟩ := Text.getLast?_pieces hslash name.toList
  obtain ⟨others, hpieces⟩ := List.getLast?_eq_some_iff.1 hlast
  have hscript : IsScript (String.ofList (front ++ ".sh".toList)) :=
    ⟨front, String.toList_ofList.symm⟩
  have hkept : (String.ofList (front ++ ".sh".toList) != "" &&
      String.ofList (front ++ ".sh".toList) != ".") = true := by
    have hne (other : String) (hother : ¬ IsScript other) :
        String.ofList (front ++ ".sh".toList) ≠ other := fun heq => hother (heq ▸ hscript)
    simp only [Bool.and_eq_true, bne_iff_ne]
    exact ⟨hne "" (by decide), hne "." (by decide)⟩
  have hnames : (ofText (name ++ ".sh")).names =
      ((others.map String.ofList).filter fun name => name != "" && name != ".") ++
        [String.ofList (front ++ ".sh".toList)] := by
    rw [ofText, Text.split, String.toList_append, hpieces, List.map_append, List.filter_append]
    simp only [List.map_cons, List.map_nil, List.filter_cons, List.filter_nil, hkept, if_true]
  rw [child, append]
  split
  · exact ⟨_, _, by rw [hnames, ← List.append_assoc], hscript⟩
  · exact ⟨_, _, hnames, hscript⟩

/-! ## Directories of a directory -/

namespace Manifests

variable {tree tree' : Tree} {last : String} {old : Option Tree} {new : Tree}
  {entries entries' : List (String × Tree)} {directory : Path}

/-- The names of the directories among the entries of a directory. -/
def branchNames (entries : List (String × Tree)) : List String :=
  (entries.filter (·.2.isBranch)).map fun entry => entry.1

theorem subdirectories_eq (h : tree.ask directory = .ok (some (.directory entries))) :
    tree.subdirectories directory =
      .ok (Path.sort ((branchNames entries).map fun name => pathBelow directory [name])) := by
  rw [Tree.subdirectories, Tree.entriesAt_eq h, branchNames, List.map_map]
  rfl

theorem subdirectories_of_no_directory (hzero : directory.holdsZero = false)
    (hlong : tree.look directory ≠ .error .nameTooLong)
    (h : ∀ entries, tree.look directory ≠ .ok (.directory entries)) :
    tree.subdirectories directory = .ok [] := by
  have hnil : Path.sort [] = [] := by simp [Path.sort]
  rw [Tree.subdirectories, Tree.entriesAt, Tree.ask, if_neg (by simp [hzero])]
  cases hlook : tree.look directory with
  | ok found =>
      cases found with
      | file f => exact congrArg Except.ok hnil
      | directory entries => exact absurd hlook (h entries)
  | error trouble =>
      cases trouble with
      | nameTooLong => exact absurd hlook hlong
      | _ => exact congrArg Except.ok hnil

theorem not_long_of_subdirectories (hzero : directory.holdsZero = false) {dirs : List Path}
    (h : tree.subdirectories directory = .ok dirs) :
    tree.look directory ≠ .error .nameTooLong := by
  intro hlong
  rw [Tree.subdirectories, Tree.entriesAt, Tree.ask, if_neg (by simp [hzero]), hlong] at h
  cases h

theorem put_of_free {name : String} (child : Tree) (h : entries.lookup name = none) :
    Tree.put name child entries = entries ++ [(name, child)] := by
  induction entries with
  | nil => rfl
  | cons entry entries ih =>
      rw [List.lookup_cons] at h
      split at h
      · cases h
      · rename_i hne
        have hother : entry.1 ≠ name := fun heq => by simp [heq] at hne
        rw [Tree.put, if_neg hother, ih h, List.cons_append]

/-- The directories stay, and at most an empty one comes behind them. -/
theorem branchNames_keeps (w : Tree.Writable last old new)
    (h : Tree.Keeps last old new (.directory entries) (.directory entries')) :
    branchNames entries' = branchNames entries ∨ ∃ name, name ≠ ".." ∧
      entries'.lookup name = some .empty ∧ branchNames entries' = branchNames entries ++ [name] := by
  obtain heq | h := h
  · cases heq
    exact .inl rfl
  · cases h with
    | here hold =>
        cases w with
        | directory plain =>
            refine .inr ⟨last, plain, by rw [Tree.lookup_put, if_pos rfl], ?_⟩
            rw [put_of_free _ hold]
            simp [branchNames, Tree.empty, Tree.isBranch]
        | script hscript f =>
            rw [put_of_free _ hold]
            simp [branchNames, Tree.isBranch]
        | again hscript f g => exact .inl (map_branches_put _ hold rfl)
    | inside hchild h =>
        refine .inl (map_branches_put _ hchild ?_)
        cases h <;> rfl

/-! ## Files of features -/

theorem findM?_of_ok {α : Type} {choice choice' : α → Attempt Bool} {l : List α}
    (h : ∀ a ∈ l, ∀ b, choice' a = .ok b → choice a = .ok b) {found : Option α}
    (hfound : l.findM? choice' = .ok found) : l.findM? choice = .ok found := by
  induction l with
  | nil => exact hfound
  | cons a l ih =>
      rw [List.findM?] at hfound ⊢
      obtain ⟨b, hb, hfound⟩ := Attempt.of_bind_ok hfound
      rw [Attempt.bind_eq_of_ok (h a List.mem_cons_self b hb)]
      cases b with
      | true => exact hfound
      | false => exact ih (fun other hother => h other (List.mem_cons_of_mem _ hother)) hfound

theorem firstFile?_of_ok {names : List String}
    (h : ∀ name ∈ names, ∀ b, tree'.isFile (directory.child name) = .ok b →
      tree.isFile (directory.child name) = .ok b) {found : Option Path}
    (hfound : firstFile? tree' directory names = .ok found) :
    firstFile? tree directory names = .ok found := by
  refine findM?_of_ok (fun path hpath => ?_) hfound
  obtain ⟨name, hname, rfl⟩ := List.mem_map.1 hpath
  exact h name hname

theorem pathBelow_append (names more : List String) :
    pathBelow (pathBelow directory names) more = pathBelow directory (names ++ more) := by
  rw [pathBelow, pathBelow, pathBelow, List.append_assoc]

/-- The file of a project or a feature is right below its directory, and no script. -/
theorem child_manifest {own : String} (h : own ∈ projectFiles ++ featureFiles) (directory : Path) :
    own ≠ ".." ∧ ¬ IsScript own ∧ directory.child own = pathBelow directory [own] := by
  have hcases : own = "project.yml" ∨ own = "project.yaml" ∨ own = "feature.yml" ∨
      own = "feature.yaml" := by
    simpa [projectFiles, featureFiles] using h
  rcases hcases with rfl | rfl | rfl | rfl <;> exact ⟨by decide, by decide, rfl⟩

/-- The file of a feature that is found in a directory. -/
theorem of_firstFile? {names : List String} {path : Path}
    (h : firstFile? tree directory names = .ok (some path)) :
    ∃ own ∈ names, path = directory.child own := by
  obtain ⟨own, hown, rfl⟩ := List.mem_map.1 (Attempt.of_findM?_ok h).1
  exact ⟨own, hown, rfl⟩

/-- No file is found in an empty directory. -/
theorem firstFile?_empty (hask : tree.ask directory = .ok (some (.directory entries)))
    {sub : String} (hsub : sub ≠ "..") (hempty : entries.lookup sub = some .empty)
    {found : Option Path}
    (h : firstFile? tree (pathBelow directory [sub]) featureFiles = .ok found) : found = none := by
  cases found with
  | none => rfl
  | some path =>
      obtain ⟨f, hfile⟩ := Tree.exists_file_of_isFile (isFile_of_firstFile? h)
      obtain ⟨own, hmem, rfl⟩ := of_firstFile? h
      obtain ⟨hown, -, hchild⟩ :=
        child_manifest (List.mem_append_right _ hmem) (pathBelow directory [sub])
      rw [hchild, pathBelow_append, List.singleton_append] at hfile
      have plain : ".." ∉ [sub, own] := by simp [Ne.symm hsub, Ne.symm hown]
      rw [pathBelow, Tree.look_below (Tree.ask_eq_some_iff.1 hask).2 plain] at hfile
      split at hfile
      · cases hfile
      · obtain ⟨-, child, hchild, hbelow⟩ := Tree.exists_child hsub hfile
        cases hempty.symm.trans hchild
        exact absurd hbelow (Tree.follow_empty (by simp [Ne.symm hown]) _ f)

end Manifests

namespace Store

variable {tree tree' : Tree} {entries : List (String × Tree)} {directory : Path}
  {paths : List Path}

/-- Where a directory of features comes to be, it is empty. -/
theorem eq_nil_of_new_features (step : ScriptStep tree tree')
    (hlook : tree.look directory = .ok (.directory entries)) {trouble : FileTrouble}
    (hnone : tree.look (Manifests.pathBelow directory ["features"]) = .error trouble)
    {inner' : List (String × Tree)}
    (hnew : tree'.look (Manifests.pathBelow directory ["features"]) = .ok (.directory inner')) :
    inner' = [] := by
  have plain : ".." ∉ ["features"] := by decide
  have hup : "features" ≠ ".." := by decide
  have hlong : ¬ Tree.nameLimit < "features".utf8ByteSize := by decide
  obtain ⟨last, old, new, entries', w, hlook', hkeeps⟩ := step.look_directory hlook
  rw [Manifests.pathBelow, Tree.look_below hlook' plain] at hnew
  rw [Manifests.pathBelow, Tree.look_below hlook plain] at hnone
  split at hnew
  · cases hnew
  · rename_i hshort
    rw [if_neg hshort, Tree.follow_down hup hlong] at hnone
    rw [Tree.follow_down hup hlong] at hnew
    obtain ⟨_, heq, hlookup⟩ := hkeeps.directory_eq
    cases heq
    rcases hlookup "features" with ⟨-, hnone'⟩ | ⟨child, -, hchild, -⟩ | ⟨rfl, -, hnew'⟩
    · rw [hnone'] at hnew
      cases hnew
    · rw [hchild] at hnone
      cases hnone
    · rw [hnew'] at hnew
      cases w with
      | directory =>
          cases hnew
          rfl
      | script hscript | again hscript => exact absurd hscript (by decide)

/-- The directories of the features after a step: those that were there, and an empty one. -/
theorem subdirectories_of_step (step : ScriptStep tree tree')
    (hlook : tree.look directory = .ok (.directory entries)) {dirs' : List Path}
    (h : tree'.subdirectories (Manifests.pathBelow directory ["features"]) = .ok dirs') :
    ∃ dirs, tree.subdirectories (Manifests.pathBelow directory ["features"]) = .ok dirs ∧
      (dirs' = dirs ∨ ∃ path, Inserted path dirs dirs' ∧ ∀ found,
        Manifests.firstFile? tree' path Manifests.featureFiles = .ok found → found = none) := by
  have hlast : ∀ own ∈ (Manifests.pathBelow directory ["features"]).names.getLast?,
      ¬ IsScript own := by
    rw [Manifests.pathBelow, List.getLast?_append]
    rintro _ ⟨⟩
    decide
  generalize hfeatures : Manifests.pathBelow directory ["features"] = features at *
  cases hzero : features.holdsZero with
  | true =>
      refine ⟨dirs', ?_, .inl rfl⟩
      rw [Tree.subdirectories, Tree.entriesAt, Tree.ask, if_pos hzero] at h ⊢
      exact h
  | false =>
      have hlong : tree.look features ≠ .error .nameTooLong := fun hlong =>
        Manifests.not_long_of_subdirectories hzero h (step.look_long hlong)
      by_cases hinner : ∃ inner, tree.look features = .ok (.directory inner)
      · obtain ⟨inner, hinner⟩ := hinner
        obtain ⟨last, old, new, inner', w, hinner', hkeeps⟩ := step.look_directory hinner
        have hask' := Tree.ask_eq_some_iff.2 ⟨hzero, hinner'⟩
        refine ⟨_, Manifests.subdirectories_eq (Tree.ask_eq_some_iff.2 ⟨hzero, hinner⟩), ?_⟩
        rw [Manifests.subdirectories_eq hask'] at h
        cases h
        rcases Manifests.branchNames_keeps w hkeeps with heq | ⟨name, hname, hempty, heq⟩
        · exact .inl (by rw [heq])
        · have hstart : ∀ path ∈ (Manifests.branchNames inner').map fun name =>
              Manifests.pathBelow features [name], path.start = features.start := by
            intro path hpath
            obtain ⟨own, -, rfl⟩ := List.mem_map.1 hpath
            rfl
          refine .inr ⟨_, Path.sort_inserted ?_ hstart, fun found hfound =>
            Manifests.firstFile?_empty hask' hname hempty hfound⟩
          rw [heq, List.map_append]
          exact List.perm_append_comm
      · have hno (inner : List (String × Tree)) : tree.look features ≠ .ok (.directory inner) :=
          fun heq => hinner ⟨inner, heq⟩
        refine ⟨[], Manifests.subdirectories_of_no_directory hzero hlong hno, .inl ?_⟩
        cases dirs' with
        | nil => rfl
        | cons path rest =>
            obtain ⟨inner', hask', entry, hentry, -⟩ :=
              Manifests.of_mem_subdirectories h List.mem_cons_self
            obtain ⟨-, hinner'⟩ := Tree.ask_eq_some_iff.1 hask'
            cases hfound : tree.look features with
            | error trouble =>
                subst hfeatures
                cases eq_nil_of_new_features step hlook hfound hinner'
                cases hentry
            | ok found =>
                cases found with
                | file f => cases (step.look_file hfound hlast).symm.trans hinner'
                | directory inner => exact absurd hfound (hno inner)

/-- The files of features below a directory are the same after a step. -/
theorem featureFiles_of_step (step : ScriptStep tree tree') (proper : tree.Proper)
    (hlook : tree.look directory = .ok (.directory entries))
    (h : featureFiles tree' directory = .ok paths) : featureFiles tree directory = .ok paths := by
  obtain ⟨dirs', hdirs', hpaths⟩ := Attempt.of_bind_ok h
  obtain ⟨dirs, hdirs, hcases⟩ := subdirectories_of_step step hlook hdirs'
  obtain ⟨hall, rfl⟩ := Attempt.of_filterMapM_ok hpaths
  have hmem : ∀ path ∈ dirs, path ∈ dirs' := by
    rcases hcases with rfl | ⟨new, hinserted, -⟩
    · exact fun _ hpath => hpath
    · exact fun _ hpath => hinserted.mem_iff.2 (.inr hpath)
  have hsame : ∀ path ∈ dirs, ∃ found,
      Manifests.firstFile? tree path Manifests.featureFiles = .ok found ∧
        Manifests.firstFile? tree' path Manifests.featureFiles = .ok found := by
    intro path hpath
    obtain ⟨found, hfound⟩ := hall path (hmem path hpath)
    refine ⟨found, Manifests.firstFile?_of_ok (fun name hname b hfile => ?_) hfound, hfound⟩
    obtain ⟨inner, hask, entry, hentry, -, rfl⟩ := Manifests.of_mem_subdirectories hdirs hpath
    obtain ⟨-, hinner⟩ := Tree.ask_eq_some_iff.1 hask
    obtain ⟨hup, -, -⟩ := Tree.ProperEntries.of_mem (Tree.proper_of_follow (by simp) proper
      (Tree.look_eq_ok_iff.1 hinner).2) hentry
    obtain ⟨hown, hscript, hchild⟩ :=
      Manifests.child_manifest (List.mem_append_right _ hname) (Manifests.pathBelow _ [entry.1])
    rw [hchild, Manifests.pathBelow_append, List.singleton_append] at hfile ⊢
    refine step.isFile_eq hinner (by simp [Ne.symm hup, Ne.symm hown]) ?_ (by simp) hfile
    rintro _ ⟨⟩
    exact hscript
  have hchosen : dirs.filterMap (Attempt.chosen? fun path =>
        Manifests.firstFile? tree' path Manifests.featureFiles) =
      dirs.filterMap (Attempt.chosen? fun path =>
        Manifests.firstFile? tree path Manifests.featureFiles) := by
    refine List.filterMap_congr fun path hpath => ?_
    obtain ⟨found, hfound, hfound'⟩ := hsame path hpath
    rw [Attempt.chosen?, Attempt.chosen?, hfound, hfound']
  have hrest : dirs'.filterMap (Attempt.chosen? fun path =>
        Manifests.firstFile? tree' path Manifests.featureFiles) =
      dirs.filterMap (Attempt.chosen? fun path =>
        Manifests.firstFile? tree' path Manifests.featureFiles) := by
    rcases hcases with rfl | ⟨new, hinserted, hnone⟩
    · rfl
    · refine hinserted.filterMap_none ?_
      obtain ⟨found, hfound⟩ := hall new (hinserted.mem_iff.2 (.inl rfl))
      rw [Attempt.chosen?, hfound, hnone found hfound]
  rw [featureFiles_eq hdirs, Attempt.filterMapM_eq_ok, hrest, hchosen]
  intro path hpath
  obtain ⟨found, hfound, -⟩ := hsame path hpath
  exact ⟨found, hfound⟩

/-! ## Features below a directory -/

theorem of_mem_featureFiles (h : featureFiles tree directory = .ok paths) {path : Path}
    (hpath : path ∈ paths) :
    tree.isFile path = .ok true ∧ ∀ own ∈ path.names.getLast?, ¬ IsScript own := by
  obtain ⟨dirs, hdirs, hpaths⟩ := Attempt.of_bind_ok h
  obtain ⟨hall, rfl⟩ := Attempt.of_filterMapM_ok hpaths
  obtain ⟨sub, hsub, hchosen⟩ := List.mem_filterMap.1 hpath
  obtain ⟨found, hfound⟩ := hall sub hsub
  rw [Attempt.chosen?, hfound] at hchosen
  cases hchosen
  refine ⟨Manifests.isFile_of_firstFile? hfound, ?_⟩
  obtain ⟨own, hown, rfl⟩ := Manifests.of_firstFile? hfound
  obtain ⟨-, hscript, hchild⟩ := Manifests.child_manifest (List.mem_append_right _ hown) sub
  rw [hchild, Manifests.pathBelow, List.getLast?_append]
  rintro _ ⟨⟩
  exact hscript

/-- The features that can be read below the directory of a project. -/
def FeaturesBelow (tree : Tree) (directory : Path) (features : List Feature) : Prop :=
  ∃ paths log documents, featureFiles tree directory = .ok paths ∧
    Manifests.loadAll tree paths = (log, .ok documents) ∧ features = documents.filterMap parsed?

/-- A directory has no other features because scripts have been written. -/
theorem FeaturesBelow.of_scripted (h : Scripted tree tree') (proper : tree.Proper)
    (hlook : tree.look directory = .ok (.directory entries)) {features : List Feature}
    (hfeatures : FeaturesBelow tree' directory features) :
    FeaturesBelow tree directory features := by
  induction h using Relation.ReflTransGen.head_induction_on generalizing entries with
  | refl => exact hfeatures
  | head step _ ih =>
      obtain ⟨_, _, _, _, -, hlook', -⟩ := step.look_directory hlook
      obtain ⟨paths, log, documents, hpaths, hload, rfl⟩ := ih (step.proper proper) hlook'
      have hpaths' := featureFiles_of_step step proper hlook hpaths
      refine ⟨paths, log, documents, hpaths', ?_, rfl⟩
      rw [← hload]
      refine (Manifests.loadAll_congr fun path hpath => ?_).symm
      obtain ⟨hfile, hlast⟩ := of_mem_featureFiles hpaths' hpath
      rw [Manifests.document, Manifests.document, step.document_eq hfile hlast]

/-! ## Directories of projects -/

theorem size_join_concat (names : List String) (own : String) :
    (Text.join "/" names).utf8ByteSize + own.utf8ByteSize ≤
      (Text.join "/" (names ++ [own])).utf8ByteSize := by
  unfold Text.join
  induction names with
  | nil => simp
  | cons name names ih =>
      cases names with
      | nil =>
          rw [List.cons_append, List.nil_append, String.intercalate_cons_cons]
          simp [String.utf8ByteSize_append]
      | cons next names =>
          rw [List.cons_append] at ih
          rw [List.cons_append, List.cons_append, String.intercalate_cons_cons,
            String.intercalate_cons_cons]
          simp only [String.utf8ByteSize_append]
          omega

/-- A path is not longer than one below it. -/
theorem size_text_le {own : String} (hown : 0 < own.utf8ByteSize) (directory : Path) :
    directory.text.utf8ByteSize ≤ (Manifests.pathBelow directory [own]).text.utf8ByteSize := by
  have hsize := size_join_concat directory.names own
  have htext : (Manifests.pathBelow directory [own]).text =
      directory.start.text ++ Text.join "/" (directory.names ++ [own]) := by
    rw [Path.text, if_neg (by simp [Manifests.pathBelow])]
    rfl
  rw [htext, Path.text, String.utf8ByteSize_append]
  split
  · have hdot : ".".utf8ByteSize = 1 := by decide
    omega
  · rw [String.utf8ByteSize_append]
    omega

/-- Where a project is found there is a directory. -/
theorem exists_look_of_projectDir? {store : Store} {id : Value}
    (h : store.projectDir? id = .ok (some directory)) :
    ∃ entries, store.tree.look directory = .ok (.directory entries) := by
  obtain ⟨sources, -, h⟩ := Attempt.of_bind_ok h
  cases id with
  | text name =>
      obtain ⟨first, hfirst, hholds⟩ := Attempt.of_bind_ok (Attempt.of_findM?_ok h).2
      cases first with
      | none => cases hholds
      | some path =>
          obtain ⟨f, hfile⟩ := Tree.exists_file_of_isFile (Manifests.isFile_of_firstFile? hfirst)
          obtain ⟨own, hown, rfl⟩ := Manifests.of_firstFile? hfirst
          obtain ⟨-, -, hchild⟩ := Manifests.child_manifest (List.mem_append_left _ hown) directory
          have hsize : ∀ own ∈ Manifests.projectFiles, 0 < own.utf8ByteSize := by decide
          rw [hchild] at hfile
          obtain ⟨hshort, hfollow⟩ := Tree.look_eq_ok_iff.1 hfile
          obtain ⟨mid, above, hmid, hlast⟩ := Tree.follow_split hfollow
          have hshort' : ¬ Tree.pathLimit < directory.text.utf8ByteSize := fun hlong =>
            hshort (hlong.trans_le (size_text_le (hsize own hown) directory))
          cases mid with
          | file g => cases hlast
          | directory entries => exact ⟨entries, Tree.look_eq_ok_iff.2 ⟨hshort', hmid⟩⟩
  | _ =>
      dsimp only at h
      split at h <;> cases h

/-- The paths on which a project is looked for do not lead back up. -/
def LooksDown (store : Store) (id : Value) : Prop :=
  ∀ sources name, store.settings.projectDirs = .ok sources → id = .text name →
    ∀ source ∈ sources, ".." ∉ (source.child name).names

theorem isFile_of_scripted (h : Scripted tree tree') {path : Path} (plain : ".." ∉ path.names)
    (hlast : ∀ own ∈ path.names.getLast?, ¬ IsScript own) (hnames : path.names ≠ []) {b : Bool}
    (hfile : tree'.isFile path = .ok b) : tree.isFile path = .ok b := by
  have hroot (root : Tree) : root.look ⟨path.start, []⟩ = .ok root := by
    rw [Tree.look, if_neg]
    · rfl
    · cases path.start <;> decide
  induction h using Relation.ReflTransGen.head_induction_on with
  | refl => exact hfile
  | @head tree mid step _ ih =>
      cases tree with
      | file f =>
          obtain ⟨_, _, _, -, hputs⟩ := step
          cases hputs
      | directory entries => exact step.isFile_eq (hroot _) plain hlast hnames ih

/-- A project is found where it was before scripts were written. -/
theorem projectDir?_of_scripted {store store' : Store} {id : Value} (down : store.LooksDown id)
    (hscripted : Scripted store.tree store'.tree) (hsettings : store'.settings = store.settings)
    {found : Option Path} (h : store'.projectDir? id = .ok found) :
    store.projectDir? id = .ok found := by
  unfold projectDir? at h ⊢
  rw [hsettings] at h
  obtain ⟨sources, hsources, h⟩ := Attempt.of_bind_ok h
  rw [hsources]
  cases id with
  | text name =>
      refine Manifests.findM?_of_ok (fun directory hdirectory b hholds => ?_) h
      obtain ⟨source, hsource, rfl⟩ := List.mem_map.1 hdirectory
      have plain := down sources name hsources rfl source hsource
      obtain ⟨first, hfirst, hb⟩ := Attempt.of_bind_ok hholds
      refine (Attempt.bind_eq_of_ok (Manifests.firstFile?_of_ok
        (fun own hown b hfile => ?_) hfirst) _).trans hb
      obtain ⟨hup, hscript, hchild⟩ :=
        Manifests.child_manifest (List.mem_append_left _ hown) (source.child name)
      rw [hchild] at hfile ⊢
      refine isFile_of_scripted hscripted ?_ ?_ (by simp [Manifests.pathBelow]) hfile
      · simpa [Manifests.pathBelow, Ne.symm hup] using plain
      · rw [Manifests.pathBelow, List.getLast?_append]
        rintro _ ⟨⟩
        exact hscript
  | _ => exact h

end Store

end Playbook
