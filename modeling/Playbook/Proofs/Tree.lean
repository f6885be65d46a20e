import Mathlib.Data.List.Forall2
import Playbook.Proofs.Path
import Playbook.Proofs.Work
import Playbook.Tree

/-!
# One more file in a tree

Where there is room for a file, putting it there adds one name to the listing
and changes nothing that could be found before, however the paths to it go up
and down.
-/

namespace Playbook.Tree

/-! ## Trees and room in them -/

mutual

/-- The names in each directory differ, and none of them is `..`. -/
def Proper : Tree → Prop
  | .file _ => True
  | .directory entries => ProperEntries entries

def ProperEntries : List (String × Tree) → Prop
  | [] => True
  | (name, child) :: rest =>
      name ≠ ".." ∧ name ∉ rest.map (·.1) ∧ Proper child ∧ ProperEntries rest

end

/-- Nothing is at some names, and nothing but directories is on the way. -/
def HasRoom : Tree → List String → Prop
  | .file _, _ => False
  | .directory _, [] => False
  | .directory entries, [name] => entries.lookup name = none
  | .directory entries, name :: next :: names =>
      ∀ child, entries.lookup name = some child → child.HasRoom (next :: names)

/-- The same, with all the directories on the way. -/
def HasPlace : Tree → List String → Prop
  | .file _, _ => False
  | .directory _, [] => False
  | .directory entries, [name] => entries.lookup name = none
  | .directory entries, name :: next :: names =>
      ∃ child, entries.lookup name = some child ∧ child.HasPlace (next :: names)

theorem HasPlace.hasRoom {tree : Tree} {names : List String} (h : tree.HasPlace names) :
    tree.HasRoom names := by
  induction names generalizing tree with
  | nil => cases tree <;> cases h
  | cons name names ih =>
      cases tree with
      | file g => cases h
      | directory entries =>
          cases names with
          | nil => exact h
          | cons next names =>
              obtain ⟨child, hchild, hplace⟩ := h
              intro other hother
              cases hchild.symm.trans hother
              exact ih hplace

theorem hasRoom_empty (name : String) (names : List String) : empty.HasRoom (name :: names) := by
  cases names with
  | nil => rfl
  | cons next names => exact nofun

theorem lookup_put (name other : String) (child : Tree) (entries : List (String × Tree)) :
    (put name child entries).lookup other =
      if other = name then some child else entries.lookup other := by
  induction entries with
  | nil =>
      rw [put, List.lookup_cons]
      split <;> simp_all
  | cons entry rest ih =>
      obtain ⟨own, tree⟩ := entry
      by_cases hown : own = name
      · subst hown
        rw [put, if_pos rfl, List.lookup_cons, List.lookup_cons]
        cases hother : other == own <;> simp_all
      · rw [put, if_neg hown, List.lookup_cons, List.lookup_cons, ih]
        cases hother : other == own <;> simp_all

theorem mem_of_lookup {entries : List (String × Tree)} {name : String} {child : Tree}
    (h : entries.lookup name = some child) : (name, child) ∈ entries := by
  obtain ⟨before, after, rfl, _⟩ := List.lookup_eq_some_iff.1 h
  simp

theorem insert_cons (tree new : Tree) (name : String) (names : List String) :
    tree.insert new (name :: names) =
      .directory (put name (((tree.children.lookup name).getD empty).insert new names)
        tree.children) := by
  rw [insert]

/-! ## The listing -/

theorem filesOf_put {name : String} {child : Tree} {entries : List (String × Tree)}
    {names : List String}
    (h : child.files.Perm (names :: ((entries.lookup name).getD empty).files)) :
    (filesOf (put name child entries)).Perm ((name :: names) :: filesOf entries) := by
  induction entries with
  | nil =>
      have hnew : child.files.Perm [names] := by simpa [empty, files, filesOf] using h
      simpa [put, filesOf] using hnew.map (name :: ·)
  | cons entry rest ih =>
      obtain ⟨own, tree⟩ := entry
      by_cases hown : own = name
      · subst hown
        rw [List.lookup_cons, beq_self_eq_true] at h
        rw [put, if_pos rfl, filesOf, filesOf]
        exact (h.map (own :: ·)).append_right _
      · have hlookup : ((own, tree) :: rest).lookup name = rest.lookup name := by
          rw [List.lookup_cons, beq_false_of_ne (Ne.symm hown)]
        rw [hlookup] at h
        rw [put, if_neg hown, filesOf, filesOf]
        exact ((ih h).append_left _).trans List.perm_middle

/-- A file that is put where there is room is listed, besides all others. -/
theorem files_insert {f : File} {tree : Tree} {names : List String} (h : tree.HasRoom names) :
    (tree.insert (.file f) names).files.Perm (names :: tree.files) := by
  induction names generalizing tree with
  | nil => cases tree <;> cases h
  | cons name names ih =>
      cases tree with
      | file g => cases h
      | directory entries =>
          rw [insert_cons, files, files]
          refine filesOf_put ?_
          rw [children]
          cases names with
          | nil =>
              have hnone : entries.lookup name = none := h
              rw [hnone, Option.getD_none, insert]
              exact List.Perm.refl _
          | cons next names =>
              cases hchild : entries.lookup name with
              | none => exact ih (hasRoom_empty next names)
              | some child => exact ih (h child hchild)

/-! ## Finding what was there -/

theorem follow_up (above : List Tree) (entries : List (String × Tree)) (names : List String) :
    follow above (.directory entries) (".." :: names) =
      match above with
      | [] => follow [] (.directory entries) names
      | parent :: others => follow others parent names := by
  rw [follow.eq_def]
  rfl

theorem follow_long {name : String} (hup : name ≠ "..") (hlong : nameLimit < name.utf8ByteSize)
    (above : List Tree) (entries : List (String × Tree)) (names : List String) :
    follow above (.directory entries) (name :: names) = .error .nameTooLong := by
  rw [follow.eq_def]
  simp [hup, hlong]

theorem follow_down {name : String} (hup : name ≠ "..")
    (hlong : ¬ nameLimit < name.utf8ByteSize) (above : List Tree)
    (entries : List (String × Tree)) (names : List String) :
    follow above (.directory entries) (name :: names) =
      match entries.lookup name with
      | some child => follow (.directory entries :: above) child names
      | none => .error .missing := by
  rw [follow.eq_def]
  exact (if_neg hup).trans (if_neg hlong)

/-- One step of following names: `..` leads to the directory around, any other name to what a
directory holds under it. -/
inductive Moves : List Tree → Tree → String → List Tree → Tree → Prop where
  | top {entries : List (String × Tree)} :
      Moves [] (.directory entries) ".." [] (.directory entries)
  | up {parent : Tree} {others : List Tree} {entries : List (String × Tree)} :
      Moves (parent :: others) (.directory entries) ".." others parent
  | down {above : List Tree} {entries : List (String × Tree)} {name : String} {child : Tree}
      (hup : name ≠ "..") (hlong : ¬ nameLimit < name.utf8ByteSize)
      (hchild : entries.lookup name = some child) :
      Moves above (.directory entries) name (.directory entries :: above) child

theorem Moves.follow_eq {above above' : List Tree} {tree next : Tree} {name : String}
    (h : Moves above tree name above' next) (names : List String) :
    tree.follow above (name :: names) = next.follow above' names := by
  cases h with
  | top | up => exact follow_up ..
  | down hup hlong hchild => rw [follow_down hup hlong, hchild]

/-- What is found was found by one name after the other. -/
theorem exists_moves {above : List Tree} {tree found : Tree} {name : String} {names : List String}
    (h : tree.follow above (name :: names) = .ok found) :
    ∃ above' next, Moves above tree name above' next ∧ next.follow above' names = .ok found := by
  cases tree with
  | file g => cases h
  | directory entries =>
      by_cases hup : name = ".."
      · subst hup
        rw [follow_up] at h
        cases above with
        | nil => exact ⟨_, _, .top, h⟩
        | cons parent others => exact ⟨_, _, .up, h⟩
      · by_cases hlong : nameLimit < name.utf8ByteSize
        · rw [follow_long hup hlong] at h
          cases h
        · rw [follow_down hup hlong] at h
          cases hchild : entries.lookup name with
          | none =>
              rw [hchild] at h
              cases h
          | some child =>
              rw [hchild] at h
              exact ⟨_, _, .down hup hlong hchild, h⟩

/-- Below a directory, a name other than `..` leads to what the directory holds under it. -/
theorem exists_child {above : List Tree} {entries : List (String × Tree)} {found : Tree}
    {name : String} {names : List String} (hup : name ≠ "..")
    (h : (directory entries).follow above (name :: names) = .ok found) :
    ¬ nameLimit < name.utf8ByteSize ∧ ∃ child, entries.lookup name = some child ∧
      child.follow (.directory entries :: above) names = .ok found := by
  obtain ⟨above', next, hmoves, hnext⟩ := exists_moves h
  cases hmoves with
  | top | up => exact absurd rfl hup
  | down _ hlong hchild => exact ⟨hlong, next, hchild, hnext⟩

/-- The same tree, or the tree with a file put where there was room. -/
def Grown (f : File) (tree tree' : Tree) : Prop :=
  tree' = tree ∨ ∃ names, tree.HasRoom names ∧ tree' = tree.insert (.file f) names

theorem Grown.file_eq {f g : File} {tree' : Tree} (h : Grown f (.file g) tree') :
    tree' = .file g := by
  obtain rfl | ⟨names, hroom, _⟩ := h
  · rfl
  · cases names <;> cases hroom

theorem Grown.directory_eq {f : File} {entries : List (String × Tree)} {tree' : Tree}
    (h : Grown f (.directory entries) tree') :
    ∃ entries', tree' = .directory entries' ∧ ∀ name child, entries.lookup name = some child →
      ∃ child', entries'.lookup name = some child' ∧ Grown f child child' := by
  obtain rfl | ⟨names, hroom, rfl⟩ := h
  · exact ⟨entries, rfl, fun name child hchild => ⟨child, hchild, .inl rfl⟩⟩
  · cases names with
    | nil => cases hroom
    | cons own names =>
        refine ⟨_, insert_cons _ _ own names, fun name child hchild => ?_⟩
        rw [children, lookup_put]
        by_cases hname : name = own
        · subst hname
          rw [if_pos rfl, hchild, Option.getD_some]
          cases names with
          | nil => cases hchild.symm.trans hroom
          | cons next names => exact ⟨_, rfl, .inr ⟨next :: names, hroom child hchild, rfl⟩⟩
        · rw [if_neg hname]
          exact ⟨child, hchild, .inl rfl⟩

/-- What was found is found again, and a name that was too long still is. -/
theorem follow_grown {f : File} {above above' : List Tree} {tree tree' : Tree}
    (habove : List.Forall₂ (Grown f) above above') (h : Grown f tree tree')
    (names : List String) :
    (∀ found, tree.follow above names = .ok found →
      ∃ found', tree'.follow above' names = .ok found' ∧ Grown f found found') ∧
    (tree.follow above names = .error .nameTooLong →
      tree'.follow above' names = .error .nameTooLong) := by
  induction names generalizing above above' tree tree' with
  | nil =>
      refine ⟨fun found hfound => ?_, nofun⟩
      cases hfound
      exact ⟨tree', rfl, h⟩
  | cons name names ih =>
      cases tree with
      | file g => exact ⟨nofun, nofun⟩
      | directory entries =>
          obtain ⟨entries', rfl, hlookup⟩ := h.directory_eq
          by_cases hup : name = ".."
          · subst hup
            rw [follow_up, follow_up]
            cases habove with
            | nil => exact ih .nil h
            | cons hparent hothers => exact ih hothers hparent
          · by_cases hlong : nameLimit < name.utf8ByteSize
            · rw [follow_long hup hlong, follow_long hup hlong]
              exact ⟨nofun, fun _ => rfl⟩
            · rw [follow_down hup hlong, follow_down hup hlong]
              cases hchild : entries.lookup name with
              | none => exact ⟨nofun, nofun⟩
              | some child =>
                  obtain ⟨child', hchild', hgrown⟩ := hlookup name child hchild
                  rw [hchild']
                  exact ih (habove.cons h) hgrown

theorem look_grown {f : File} {root root' : Tree} (h : Grown f root root') (path : Path)
    (hpath : (∃ g, root.look path = .ok (.file g)) ∨ root.look path = .error .nameTooLong) :
    root'.look path = root.look path := by
  unfold look at hpath ⊢
  split
  · rfl
  · rename_i hshort
    rw [if_neg hshort] at hpath
    obtain ⟨hfound, hlong⟩ := follow_grown .nil h path.names
    rcases hpath with ⟨g, hg⟩ | hpath
    · obtain ⟨found', hfound', hgrown⟩ := hfound _ hg
      rw [hfound', hg, hgrown.file_eq]
    · rw [hpath, hlong hpath]

theorem follow_append {above : List Tree} {tree found : Tree} {names : List String}
    (h : tree.follow above names = .ok found) :
    ∃ above', ∀ more, tree.follow above (names ++ more) = found.follow above' more := by
  induction names generalizing above tree with
  | nil =>
      cases h
      exact ⟨above, fun _ => rfl⟩
  | cons name names ih =>
      obtain ⟨above', next, hmoves, hnext⟩ := exists_moves h
      obtain ⟨last, hlast⟩ := ih hnext
      exact ⟨last, fun more => (hmoves.follow_eq _).trans (hlast more)⟩

theorem follow_split {above : List Tree} {tree found : Tree} {names more : List String}
    (h : tree.follow above (names ++ more) = .ok found) :
    ∃ mid above', tree.follow above names = .ok mid ∧ mid.follow above' more = .ok found := by
  induction names generalizing above tree with
  | nil => exact ⟨tree, above, rfl, h⟩
  | cons name names ih =>
      obtain ⟨above', next, hmoves, hnext⟩ := exists_moves h
      obtain ⟨mid, last, hmid, hbelow⟩ := ih hnext
      exact ⟨mid, last, (hmoves.follow_eq _).trans hmid, hbelow⟩

/-- Names without `..` lead to the same from any directory on. -/
theorem follow_plain {names : List String} (plain : ".." ∉ names) (above above' : List Tree)
    (tree : Tree) : tree.follow above names = tree.follow above' names := by
  induction names generalizing above above' tree with
  | nil => rfl
  | cons name names ih =>
      obtain ⟨hname, hrest⟩ := not_or.1 (mt List.mem_cons.2 plain)
      cases tree with
      | file g => rfl
      | directory entries =>
          by_cases hlong : nameLimit < name.utf8ByteSize
          · rw [follow_long (Ne.symm hname) hlong, follow_long (Ne.symm hname) hlong]
          · rw [follow_down (Ne.symm hname) hlong, follow_down (Ne.symm hname) hlong]
            cases entries.lookup name with
            | none => rfl
            | some child => exact ih hrest _ _ child

/-! ## Not finding what was not there -/

/-- The same tree, or the tree with a file of some last name in a directory of it. -/
def Filled (f : File) (last : String) (tree tree' : Tree) : Prop :=
  tree' = tree ∨ ∃ names, tree.HasPlace names ∧ names.getLast? = some last ∧
    tree' = tree.insert (.file f) names

theorem Filled.grown {f : File} {last : String} {tree tree' : Tree}
    (h : Filled f last tree tree') : Grown f tree tree' := by
  obtain rfl | ⟨names, hplace, -, rfl⟩ := h
  · exact .inl rfl
  · exact .inr ⟨names, hplace.hasRoom, rfl⟩

theorem Filled.directory_eq {f : File} {last : String} {entries : List (String × Tree)}
    {tree' : Tree} (h : Filled f last (.directory entries) tree') :
    ∃ entries', tree' = .directory entries' ∧
      (∀ name child, entries.lookup name = some child →
        ∃ child', entries'.lookup name = some child' ∧ Filled f last child child') ∧
      ∀ name, entries.lookup name = none →
        entries'.lookup name = none ∨ name = last ∧ entries'.lookup name = some (.file f) := by
  obtain rfl | ⟨names, hplace, hlast, rfl⟩ := h
  · exact ⟨entries, rfl, fun name child hchild => ⟨child, hchild, .inl rfl⟩,
      fun name hnone => .inl hnone⟩
  · cases names with
    | nil => cases hplace
    | cons own names =>
        refine ⟨_, insert_cons _ _ own names, fun name child hchild => ?_, fun name hnone => ?_⟩ <;>
          rw [children, lookup_put] <;> by_cases hname : name = own
        · subst hname
          rw [if_pos rfl, hchild, Option.getD_some]
          cases names with
          | nil => cases hchild.symm.trans hplace
          | cons next names =>
              obtain ⟨_, hsome, hplace⟩ := hplace
              cases hchild.symm.trans hsome
              exact ⟨_, rfl, .inr ⟨next :: names, hplace, by simpa using hlast, rfl⟩⟩
        · rw [if_neg hname]
          exact ⟨child, hchild, .inl rfl⟩
        · subst hname
          cases names with
          | nil =>
              rw [if_pos rfl, hnone, Option.getD_none, insert]
              exact .inr ⟨by simpa using hlast, rfl⟩
          | cons next names =>
              obtain ⟨_, hsome, _⟩ := hplace
              cases hnone.symm.trans hsome
        · rw [if_neg hname]
          exact .inl hnone

/-- Where nothing was found, there is nothing now, unless it is the file itself. -/
theorem follow_filled {f : File} {last : String} {above above' : List Tree} {tree tree' : Tree}
    (habove : List.Forall₂ (Filled f last) above above') (h : Filled f last tree tree')
    {names : List String} {trouble : FileTrouble}
    (hfollow : tree.follow above names = .error trouble) :
    tree'.follow above' names = .error trouble ∨ tree'.follow above' names = .error .notDirectory ∨
      names.getLast? = some last := by
  induction names generalizing above above' tree tree' with
  | nil => cases hfollow
  | cons name names ih =>
      cases tree with
      | file g =>
          rw [h.grown.file_eq]
          exact .inl hfollow
      | directory entries =>
          obtain ⟨entries', rfl, hsome, hnone⟩ := h.directory_eq
          have hlast (hrest : names.getLast? = some last) :
              (name :: names).getLast? = some last := by
            rw [List.getLast?_cons, hrest, Option.getD_some]
          by_cases hup : name = ".."
          · subst hup
            rw [follow_up] at hfollow ⊢
            cases habove with
            | nil => exact (ih .nil h hfollow).imp_right (Or.imp_right hlast)
            | cons hparent hothers =>
                exact (ih hothers hparent hfollow).imp_right (Or.imp_right hlast)
          · by_cases hlong : nameLimit < name.utf8ByteSize
            · rw [follow_long hup hlong] at hfollow ⊢
              exact .inl hfollow
            · rw [follow_down hup hlong] at hfollow ⊢
              cases hchild : entries.lookup name with
              | some child =>
                  obtain ⟨child', hchild', hfilled⟩ := hsome name child hchild
                  rw [hchild] at hfollow
                  rw [hchild']
                  exact (ih (habove.cons h) hfilled hfollow).imp_right (Or.imp_right hlast)
              | none =>
                  rw [hchild] at hfollow
                  rcases hnone name hchild with hchild' | ⟨rfl, hchild'⟩
                  · rw [hchild']
                    exact .inl hfollow
                  · rw [hchild']
                    cases names with
                    | nil => exact .inr (.inr rfl)
                    | cons next names => exact .inr (.inl rfl)

/-! ## Finding what is listed -/

theorem mem_filesOf {entries : List (String × Tree)} {names : List String}
    (h : names ∈ filesOf entries) :
    ∃ entry ∈ entries, ∃ rest ∈ entry.2.files, names = entry.1 :: rest := by
  induction entries with
  | nil => cases h
  | cons entry entries ih =>
      rw [filesOf, List.mem_append, List.mem_map] at h
      rcases h with ⟨rest, hrest, rfl⟩ | h
      · exact ⟨entry, List.mem_cons_self, rest, hrest, rfl⟩
      · obtain ⟨other, hother, hnames⟩ := ih h
        exact ⟨other, List.mem_cons_of_mem _ hother, hnames⟩

theorem ProperEntries.of_mem {entries : List (String × Tree)} (h : ProperEntries entries)
    {entry : String × Tree} (hentry : entry ∈ entries) :
    entry.1 ≠ ".." ∧ entries.lookup entry.1 = some entry.2 ∧ entry.2.Proper := by
  induction entries with
  | nil => cases hentry
  | cons first rest ih =>
      obtain ⟨own, child⟩ := first
      obtain ⟨hup, hfresh, hproper, hrest⟩ := h
      rcases List.mem_cons.1 hentry with rfl | hentry
      · exact ⟨hup, List.lookup_cons_self, hproper⟩
      · obtain ⟨hup', hlookup, hproper'⟩ := ih hrest hentry
        refine ⟨hup', ?_, hproper'⟩
        have hne : entry.1 ≠ own := by
          rintro heq
          exact hfresh (heq ▸ List.mem_map_of_mem hentry)
        rw [List.lookup_cons, beq_false_of_ne hne]
        exact hlookup

theorem follow_of_mem_files {tree : Tree} (proper : tree.Proper) {names : List String}
    (h : names ∈ tree.files) (above : List Tree) :
    (∃ g, tree.follow above names = .ok (.file g)) ∨
      tree.follow above names = .error .nameTooLong := by
  induction names generalizing tree above with
  | nil =>
      cases tree with
      | file g => exact .inl ⟨g, rfl⟩
      | directory entries =>
          obtain ⟨_, _, _, _, hnames⟩ := mem_filesOf h
          cases hnames
  | cons name names ih =>
      cases tree with
      | file g =>
          rw [files, List.mem_singleton] at h
          cases h
      | directory entries =>
          obtain ⟨entry, hentry, rest, hrest, hnames⟩ := mem_filesOf h
          cases hnames
          obtain ⟨hup, hlookup, hproper⟩ := ProperEntries.of_mem proper hentry
          by_cases hlong : nameLimit < entry.1.utf8ByteSize
          · exact .inr (follow_long hup hlong _ _ _)
          · rw [follow_down hup hlong, hlookup]
            exact ih hproper hrest _

/-- What a directory passes on to all that it holds, holds of whatever is found. -/
theorem follow_induction {P : Tree → Prop}
    (hdown : ∀ entries, P (.directory entries) → ∀ entry ∈ entries, P entry.2)
    {above : List Tree} {tree found : Tree} (habove : ∀ parent ∈ above, P parent) (htree : P tree)
    {names : List String} (h : tree.follow above names = .ok found) : P found := by
  induction names generalizing above tree with
  | nil =>
      cases h
      exact htree
  | cons name names ih =>
      obtain ⟨above', next, hmoves, hnext⟩ := exists_moves h
      cases hmoves with
      | top => exact ih habove htree hnext
      | up =>
          obtain ⟨hparent, hothers⟩ := List.forall_mem_cons.1 habove
          exact ih hothers hparent hnext
      | down _ _ hchild =>
          exact ih (List.forall_mem_cons.2 ⟨htree, habove⟩)
            (hdown _ htree _ (mem_of_lookup hchild)) hnext

theorem proper_of_follow {above : List Tree} {tree found : Tree}
    (habove : ∀ parent ∈ above, parent.Proper) (proper : tree.Proper) {names : List String}
    (h : tree.follow above names = .ok found) : found.Proper :=
  follow_induction (fun _ hproper _ hentry => (ProperEntries.of_mem hproper hentry).2.2) habove
    proper h

/-! ## Places -/

/-- Below a root, some names (the last of them first) lead through `above` to a tree. -/
inductive At (root : Tree) : List String → List Tree → Tree → Prop where
  | top : At root [] [] root
  | down {passed : List String} {above : List Tree} {entries : List (String × Tree)}
      {name : String} {child : Tree} (h : At root passed above (.directory entries))
      (hchild : entries.lookup name = some child) :
      At root (name :: passed) (.directory entries :: above) child

theorem At.unique {root tree tree' : Tree} {passed : List String} {above above' : List Tree}
    (h : At root passed above tree) (h' : At root passed above' tree') :
    above = above' ∧ tree = tree' := by
  induction h generalizing above' tree' with
  | top =>
      cases h'
      exact ⟨rfl, rfl⟩
  | down h hchild ih =>
      cases h' with
      | down h' hchild' =>
          obtain ⟨rfl, heq⟩ := ih h'
          cases heq
          cases hchild.symm.trans hchild'
          exact ⟨rfl, rfl⟩

theorem At.follow {root tree found : Tree} {passed names : List String} {above : List Tree}
    (h : At root passed above tree) (hfound : tree.follow above names = .ok found) :
    ∃ passed' above', At root passed' above' found ∧
      Path.resolveFrom passed names = passed'.reverse := by
  induction names generalizing passed above tree with
  | nil =>
      cases hfound
      exact ⟨passed, above, h, rfl⟩
  | cons name names ih =>
      obtain ⟨above', next, hmoves, hnext⟩ := exists_moves hfound
      rw [Path.resolveFrom]
      cases hmoves with
      | top =>
          rw [if_pos rfl]
          cases h
          exact ih .top hnext
      | up =>
          rw [if_pos rfl]
          cases h with
          | down h _ => exact ih h hnext
      | down hup _ hchild =>
          rw [if_neg hup]
          exact ih (h.down hchild) hnext

theorem At.insert {root tree : Tree} {passed : List String} {above : List Tree}
    (h : At root passed above tree) (new : Tree) (names : List String) :
    ∃ above', At (root.insert new (passed.reverse ++ names)) passed above'
      (tree.insert new names) := by
  induction h generalizing names with
  | top => exact ⟨[], .top⟩
  | @down passed above entries name child h hchild ih =>
      obtain ⟨above', hparent⟩ := ih (name :: names)
      rw [insert_cons, children, hchild, Option.getD_some] at hparent
      rw [List.reverse_cons, List.append_assoc, List.singleton_append]
      exact ⟨_, hparent.down (by rw [lookup_put, if_pos rfl])⟩

theorem At.hasRoom {root tree : Tree} {passed : List String} {above : List Tree}
    (h : At root passed above tree) {names : List String} (room : tree.HasRoom names) :
    root.HasRoom (passed.reverse ++ names) := by
  induction h generalizing names with
  | top => exact room
  | @down passed above entries name child h hchild ih =>
      rw [List.reverse_cons, List.append_assoc, List.singleton_append]
      refine ih ?_
      cases names with
      | nil => cases child <;> cases room
      | cons next names =>
          intro other hother
          cases hchild.symm.trans hother
          exact room

theorem At.hasPlace {root tree : Tree} {passed : List String} {above : List Tree}
    (h : At root passed above tree) {names : List String} (hplace : tree.HasPlace names) :
    root.HasPlace (passed.reverse ++ names) := by
  induction h generalizing names with
  | top => exact hplace
  | @down passed above entries name child h hchild ih =>
      rw [List.reverse_cons, List.append_assoc, List.singleton_append]
      refine ih ?_
      cases names with
      | nil => cases child <;> cases hplace
      | cons next names => exact ⟨child, hchild, hplace⟩

theorem resolveFrom_append {names : List String} (plain : ".." ∉ names) (passed before : List String) :
    Path.resolveFrom passed (before ++ names) = Path.resolveFrom passed before ++ names := by
  induction before generalizing passed with
  | nil =>
      induction names generalizing passed with
      | nil => simp [Path.resolveFrom]
      | cons name names ih =>
          obtain ⟨hname, hrest⟩ := not_or.1 (mt List.mem_cons.2 plain)
          have hnext := ih hrest (name :: passed)
          rw [List.nil_append] at hnext ⊢
          rw [Path.resolveFrom, Path.resolveFrom, if_neg (Ne.symm hname), hnext]
          simp [Path.resolveFrom]
  | cons name before ih =>
      rw [List.cons_append, Path.resolveFrom, Path.resolveFrom]
      split
      · exact ih _
      · exact ih _

/-! ## A file below a directory -/

/-- The tree with a file at some names below a directory. -/
def withFile (root : Tree) (directory : Path) (names : List String) (f : File) : Tree :=
  root.insertAt { directory with names := directory.names ++ names } (.file f)

variable {root tree : Tree} {directory : Path} {names : List String}

theorem look_eq_ok_iff {path : Path} {found : Tree} :
    root.look path = .ok found ↔
      ¬ pathLimit < path.text.utf8ByteSize ∧ root.follow [] path.names = .ok found := by
  unfold look
  split <;> simp_all

theorem exists_at_of_look (hlook : root.look directory = .ok tree) :
    ∃ passed above, At root passed above tree ∧
      Path.resolveFrom [] directory.names = passed.reverse ∧
      ∀ names, ".." ∉ names → ∀ f, root.withFile directory names f =
        root.insert (.file f) (passed.reverse ++ names) := by
  obtain ⟨passed, above, hat, hplace⟩ := At.top.follow (look_eq_ok_iff.1 hlook).2
  refine ⟨passed, above, hat, hplace, fun names plain f => ?_⟩
  rw [withFile, insertAt, place, resolveFrom_append plain, hplace]

/-- The directory holds what it held with the file put into it, and the whole tree has grown. -/
theorem look_withFile (hlook : root.look directory = .ok tree) (room : tree.HasRoom names)
    (plain : ".." ∉ names) (f : File) :
    (root.withFile directory names f).look directory = .ok (tree.insert (.file f) names) ∧
      Grown f root (root.withFile directory names f) := by
  obtain ⟨passed, above, hat, hplace, hnew⟩ := exists_at_of_look hlook
  obtain ⟨hshort, hfollow⟩ := look_eq_ok_iff.1 hlook
  have hgrown : Grown f root (root.withFile directory names f) :=
    .inr ⟨_, hat.hasRoom room, hnew names plain f⟩
  obtain ⟨found, hfound, -⟩ := (follow_grown .nil hgrown directory.names).1 tree hfollow
  obtain ⟨passed', above', hat', hplace'⟩ := At.top.follow hfound
  obtain rfl : passed = passed' := by
    rw [← List.reverse_inj, ← hplace, ← hplace']
  obtain ⟨above'', hinserted⟩ := hat.insert (.file f) names
  rw [← hnew names plain f] at hinserted
  obtain ⟨-, rfl⟩ := hat'.unique hinserted
  exact ⟨look_eq_ok_iff.2 ⟨hshort, hfound⟩, hgrown⟩

theorem filled_withFile (hlook : root.look directory = .ok tree) (hplace : tree.HasPlace names)
    (plain : ".." ∉ names) {last : String} (hlast : names.getLast? = some last) (f : File) :
    Filled f last root (root.withFile directory names f) := by
  obtain ⟨passed, above, hat, -, hnew⟩ := exists_at_of_look hlook
  refine .inr ⟨_, hat.hasPlace hplace, ?_, hnew names plain f⟩
  rw [List.getLast?_append, hlast, Option.some_or]

/-- A path below a directory, without `..` in it, is followed from the directory. -/
theorem look_below (hlook : root.look directory = .ok tree) (plain : ".." ∉ names) :
    root.look { directory with names := directory.names ++ names } =
      if pathLimit < (Path.text { directory with names := directory.names ++ names }).utf8ByteSize
      then .error .nameTooLong
      else tree.follow [] names := by
  obtain ⟨above, happend⟩ := follow_append (look_eq_ok_iff.1 hlook).2
  unfold look
  simp only [happend, follow_plain plain above []]

/-- Another path leads to a file as it did before if its last name is another. -/
theorem isFile_of_filled {f : File} {last : String} {root' : Tree}
    (hfilled : Filled f last root root') {path : Path} (hpath : path.names.getLast? ≠ some last) :
    root'.isFile path = root.isFile path := by
  unfold isFile ask
  cases path.holdsZero with
  | true => rfl
  | false =>
      simp only [Bool.false_eq_true, if_false]
      have hgrown := follow_grown .nil hfilled.grown path.names
      unfold look
      by_cases hlong : pathLimit < path.text.utf8ByteSize
      · rw [if_pos hlong, if_pos hlong]
      · rw [if_neg hlong, if_neg hlong]
        cases hfollow : root.follow [] path.names with
        | ok found =>
            obtain ⟨found', hfound', hgrown'⟩ := hgrown.1 found hfollow
            rw [hfound']
            cases found with
            | file g => rw [hgrown'.file_eq]
            | directory entries =>
                obtain ⟨entries', rfl, -⟩ := hgrown'.directory_eq
                rfl
        | error trouble =>
            rcases follow_filled .nil hfilled hfollow with hsame | hfile | hlast
            · rw [hsame]
            · rw [hfile]
              cases trouble with
              | nameTooLong => cases (hgrown.2 hfollow).symm.trans hfile
              | _ => rfl
            · exact absurd hlast hpath

theorem ask_eq_some_iff {path : Path} {found : Tree} :
    root.ask path = .ok (some found) ↔ path.holdsZero = false ∧ root.look path = .ok found := by
  unfold ask
  cases path.holdsZero with
  | true => simp
  | false => cases root.look path with
    | ok found' => simp
    | error trouble => cases trouble <;> simp

theorem exists_file_of_isFile {path : Path} (h : root.isFile path = .ok true) :
    ∃ g, root.look path = .ok (.file g) := by
  obtain ⟨found, hask, h⟩ := Attempt.of_bind_ok h
  rcases found with _ | ⟨g⟩ | ⟨entries⟩
  · cases h
  · exact ⟨g, (ask_eq_some_iff.1 hask).2⟩
  · cases h

theorem entriesAt_eq {path : Path} {entries : List (String × Tree)}
    (h : root.ask path = .ok (some (.directory entries))) : root.entriesAt path = .ok entries := by
  unfold entriesAt
  rw [h]
  rfl

/-- A listing below a directory, with the file that is put there. -/
theorem filesBelow_withFile {entries : List (String × Tree)}
    (hask : root.ask directory = .ok (some (.directory entries)))
    (room : (Tree.directory entries).HasRoom names) (plain : ".." ∉ names) (f : File) :
    ∃ listing listing', root.filesBelow directory = .ok listing ∧
      (root.withFile directory names f).filesBelow directory = .ok listing' ∧
      listing'.Perm (names :: listing) := by
  obtain ⟨hzero, hlook⟩ := ask_eq_some_iff.1 hask
  obtain ⟨hlook', -⟩ := look_withFile hlook room plain f
  obtain ⟨entries', hentries, -⟩ := Grown.directory_eq (.inr ⟨names, room, rfl⟩ :
    Grown f (.directory entries) ((Tree.directory entries).insert (.file f) names))
  have hperm := files_insert (f := f) room
  rw [hentries] at hlook' hperm
  refine ⟨filesOf entries, filesOf entries', ?_, ?_, hperm⟩
  · rw [filesBelow, entriesAt_eq hask]
    rfl
  · rw [filesBelow, entriesAt_eq (ask_eq_some_iff.2 ⟨hzero, hlook'⟩)]
    rfl

/-- A document that was listed before is still there to be read. -/
theorem document_withFile (proper : root.Proper) {entries : List (String × Tree)}
    (hask : root.ask directory = .ok (some (.directory entries)))
    (room : (Tree.directory entries).HasRoom names) (plain : ".." ∉ names) (f : File)
    {listing : List (List String)} (hlisting : root.filesBelow directory = .ok listing)
    {other : List String} (hother : other ∈ listing) :
    (root.withFile directory names f).document { directory with names := directory.names ++ other } =
      root.document { directory with names := directory.names ++ other } := by
  obtain ⟨-, hlook⟩ := ask_eq_some_iff.1 hask
  obtain ⟨-, hgrown⟩ := look_withFile hlook room plain f
  rw [filesBelow, entriesAt_eq hask] at hlisting
  cases hlisting
  obtain ⟨hshort, hfollow⟩ := look_eq_ok_iff.1 hlook
  obtain ⟨above, happend⟩ := follow_append hfollow
  have hproper := proper_of_follow (by simp) proper hfollow
  have hfound := look_grown hgrown { directory with names := directory.names ++ other } (by
    unfold look
    split
    · exact .inr rfl
    · rw [happend]
      exact follow_of_mem_files hproper hother above)
  rw [document, document, open?, open?, hfound]

end Playbook.Tree
