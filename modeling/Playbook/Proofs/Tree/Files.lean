import Mathlib.Data.List.Nodup
import Playbook.Proofs.Tree

/-!
# Files of a tree

Names lead from a directory to at most one file, and a listing has the names
of each file once.
-/

namespace Playbook.Tree

/-- The file that names lead to, from a tree on. -/
def fileAt? : Tree → List String → Option File
  | .file f, [] => some f
  | .file _, _ :: _ => none
  | .directory _, [] => none
  | .directory entries, name :: names =>
      match entries.lookup name with
      | some child => child.fileAt? names
      | none => none

variable {entries : List (String × Tree)} {name : String} {names : List String}

@[simp] theorem fileAt?_nil : fileAt? (.directory entries) [] = none := by
  rw [fileAt?]

theorem fileAt?_cons : fileAt? (.directory entries) (name :: names) =
    (entries.lookup name).bind fun child => child.fileAt? names := by
  rw [fileAt?]
  cases entries.lookup name <;> rfl

theorem mem_filesOf_of_mem {child : Tree} {rest : List String} (h : (name, child) ∈ entries)
    (hrest : rest ∈ child.files) : name :: rest ∈ filesOf entries := by
  induction entries with
  | nil => cases h
  | cons entry entries ih =>
      rw [filesOf, List.mem_append, List.mem_map]
      rcases List.mem_cons.1 h with rfl | h
      · exact .inl ⟨rest, hrest, rfl⟩
      · exact .inr (ih h)

/-- What is listed are the names that lead to files. -/
theorem mem_files_iff {tree : Tree} (proper : tree.Proper) :
    names ∈ tree.files ↔ (tree.fileAt? names).isSome := by
  induction names generalizing tree with
  | nil =>
      cases tree with
      | file f => simp [files, fileAt?]
      | directory entries =>
          rw [fileAt?_nil]
          refine ⟨fun h => ?_, by simp⟩
          obtain ⟨_, _, _, _, hnames⟩ := mem_filesOf h
          cases hnames
  | cons name names ih =>
      cases tree with
      | file f => simp [files, fileAt?]
      | directory entries =>
          rw [fileAt?_cons]
          constructor
          · intro h
            obtain ⟨entry, hentry, rest, hrest, hnames⟩ := mem_filesOf h
            cases hnames
            obtain ⟨-, hlookup, hproper⟩ := ProperEntries.of_mem proper hentry
            rw [hlookup]
            exact (ih hproper).1 hrest
          · intro h
            cases hlookup : entries.lookup name with
            | none =>
                rw [hlookup] at h
                cases h
            | some child =>
                rw [hlookup] at h
                have hentry := mem_of_lookup hlookup
                have hproper := (ProperEntries.of_mem proper hentry).2.2
                exact mem_filesOf_of_mem hentry ((ih hproper).2 h)

mutual

theorem nodup_files : ∀ tree : Tree, tree.Proper → tree.files.Nodup
  | .file _, _ => List.nodup_singleton _
  | .directory entries, proper => nodup_filesOf entries proper

theorem nodup_filesOf : ∀ entries : List (String × Tree), ProperEntries entries →
    (filesOf entries).Nodup
  | [], _ => List.nodup_nil
  | (name, child) :: rest, ⟨_, hnew, hchild, hrest⟩ => by
      rw [filesOf]
      refine List.nodup_append.2 ⟨(nodup_files child hchild).map List.cons_injective,
        nodup_filesOf rest hrest, ?_⟩
      rintro names hnames _ hother rfl
      obtain ⟨tail, -, rfl⟩ := List.mem_map.1 hnames
      obtain ⟨entry, hentry, _, _, hsame⟩ := mem_filesOf hother
      cases hsame
      exact hnew (List.mem_map_of_mem hentry)

end

variable {tree : Tree} {directory : Path}

/-- Names lead to a regular file below a directory of the tree. -/
def HasFile (tree : Tree) (directory : Path) (names : List String) : Prop :=
  ∃ entries, tree.ask directory = .ok (some (.directory entries)) ∧
    ((Tree.directory entries).fileAt? names).isSome

theorem proper_of_ask (proper : tree.Proper)
    (h : tree.ask directory = .ok (some (.directory entries))) : (Tree.directory entries).Proper :=
  proper_of_follow (by simp) proper (look_eq_ok_iff.1 (ask_eq_some_iff.1 h).2).2

theorem of_filesBelow {listing : List (List String)} (h : tree.filesBelow directory = .ok listing) :
    (∃ entries, tree.ask directory = .ok (some (.directory entries)) ∧
      listing = filesOf entries) ∨
    (∀ entries, tree.ask directory ≠ .ok (some (.directory entries))) ∧ listing = [] := by
  unfold filesBelow entriesAt at h
  obtain ⟨entries, hentries, h⟩ := Attempt.of_bind_ok h
  cases h
  obtain ⟨found, hfound, hgiven⟩ := Attempt.of_bind_ok hentries
  rcases found with _ | ⟨f⟩ | ⟨own⟩
  · cases hgiven
    exact .inr ⟨fun _ h => (nomatch hfound.symm.trans h), rfl⟩
  · cases hgiven
    exact .inr ⟨fun _ h => (nomatch hfound.symm.trans h), rfl⟩
  · cases hgiven
    exact .inl ⟨_, hfound, rfl⟩

theorem mem_filesBelow_iff (proper : tree.Proper) {listing : List (List String)}
    (h : tree.filesBelow directory = .ok listing) :
    names ∈ listing ↔ tree.HasFile directory names := by
  rcases of_filesBelow h with ⟨entries, hask, rfl⟩ | ⟨hask, rfl⟩
  · refine Iff.trans (mem_files_iff (proper_of_ask proper hask)) ⟨fun h => ⟨entries, hask, h⟩, ?_⟩
    rintro ⟨others, hother, hfile⟩
    cases hask.symm.trans hother
    exact hfile
  · exact ⟨nofun, fun ⟨entries, hentries, _⟩ => absurd hentries (hask entries)⟩

theorem nodup_filesBelow (proper : tree.Proper) {listing : List (List String)}
    (h : tree.filesBelow directory = .ok listing) : listing.Nodup := by
  rcases of_filesBelow h with ⟨entries, hask, rfl⟩ | ⟨-, rfl⟩
  · exact nodup_filesOf entries (proper_of_ask proper hask)
  · exact List.nodup_nil

end Playbook.Tree
