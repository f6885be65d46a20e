import Playbook.Proofs.Store.Features
import Playbook.Proofs.Text

/-!
# Where a project is

A project is looked up by its name, and a check goes through the directories
that the sources hold. A plain name leads to one of these.
-/

namespace Playbook

/-! ## Plain names -/

/-- A name of one part, which leads to nothing but a member of a directory. -/
def Path.PlainName (name : String) : Prop :=
  name ≠ "" ∧ name ≠ "." ∧ name ≠ ".." ∧ '/' ∉ name.toList

theorem Path.child_plain {name : String} (h : PlainName name) (source : Path) :
    source.child name = Manifests.pathBelow source [name] := by
  obtain ⟨hfilled, hdot, -, hslash⟩ := h
  have hstart : (name.toList.takeWhile (· == '/')) = [] := by
    cases hname : name.toList with
    | nil => rfl
    | cons c rest =>
        rw [hname, List.mem_cons, not_or] at hslash
        rw [List.takeWhile_cons_of_neg]
        simpa using Ne.symm hslash.1
  have hnames : ofText name = ⟨.here, [name]⟩ := by
    rw [ofText, hstart, Text.split, Text.pieces_of_notMem hslash]
    simp [Start.ofSlashes, hfilled, hdot]
  rw [child, hnames, append, if_pos rfl]
  rfl

/-! ## Directories of a source -/

/-- What has something below it is a directory. -/
theorem Tree.lookup_of_follow {above : List Tree} {entries : List (String × Tree)} {found : Tree}
    {name next : String} {names : List String} (plain : name ≠ "..")
    (h : (Tree.directory entries).follow above (name :: next :: names) = .ok found) :
    ∃ inside, entries.lookup name = some (.directory inside) := by
  obtain ⟨-, child, hchild, hbelow⟩ := exists_child plain h
  cases child with
  | file g => cases hbelow
  | directory inside => exact ⟨inside, hchild⟩

namespace Manifests

variable {tree : Tree} {source : Path} {name : String}

/-- A directory with a file in it is among those of its source. -/
theorem mem_subdirectories {directories : List Path}
    (h : tree.subdirectories source = .ok directories) (plain : name ≠ "..") {file : String}
    (hfile : tree.isFile (pathBelow (pathBelow source [name]) [file]) = .ok true) :
    pathBelow source [name] ∈ directories := by
  have hplace : ∃ found, tree.ask (pathBelow (pathBelow source [name]) [file]) =
      .ok (some found) := by
    obtain ⟨found, hask, hkind⟩ := Attempt.of_bind_ok hfile
    cases found with
    | none => cases hkind
    | some found => exact ⟨found, hask⟩
  obtain ⟨found, hask⟩ := hplace
  obtain ⟨hzero, hlook⟩ := Tree.ask_eq_some_iff.1 hask
  have hfollow := (Tree.look_eq_ok_iff.1 hlook).2
  rw [pathBelow, pathBelow, List.append_assoc] at hfollow
  obtain ⟨mid, above, hmid, hbelow⟩ := Tree.follow_split hfollow
  cases mid with
  | file own => cases hbelow
  | directory entries =>
      obtain ⟨inside, hinside⟩ := Tree.lookup_of_follow plain hbelow
      have hsource : source.holdsZero = false := by
        rw [Path.holdsZero, pathBelow, pathBelow, List.any_append, List.any_append,
          Bool.or_eq_false_iff, Bool.or_eq_false_iff] at hzero
        exact hzero.1.1
      have hlisted : tree.ask source = .ok (some (.directory entries)) := by
        obtain ⟨own, hown, -⟩ := Attempt.of_bind_ok h
        obtain ⟨answer, hanswer, -⟩ := Attempt.of_bind_ok hown
        rw [Tree.ask_eq_some_iff, Tree.look_eq_ok_iff]
        refine ⟨hsource, fun hlong => ?_, hmid⟩
        rw [Tree.ask, if_neg (by simp [hsource]), Tree.look, if_pos hlong] at hanswer
        cases hanswer
      rw [Tree.subdirectories, Tree.entriesAt_eq hlisted] at h
      cases h
      exact Path.mem_sort.2 (List.mem_map.2
        ⟨_, List.mem_filter.2 ⟨Tree.mem_of_lookup hinside, rfl⟩, rfl⟩)

end Manifests

theorem Attempt.of_findM?_ok {α : Type} {holds : α → Attempt Bool} {l : List α} {a : α}
    (h : l.findM? holds = .ok (some a)) : a ∈ l ∧ holds a = .ok true := by
  induction l with
  | nil => cases h
  | cons b l ih =>
      rw [List.findM?] at h
      obtain ⟨held, hheld, h⟩ := Attempt.of_bind_ok h
      cases held with
      | true =>
          cases h
          exact ⟨List.mem_cons_self, hheld⟩
      | false =>
          obtain ⟨hmem, hholds⟩ := ih h
          exact ⟨List.mem_cons_of_mem _ hmem, hholds⟩

/-- A project with a plain name is in one of the directories of its source. -/
theorem Store.mem_subdirectories_of_projectDir? {store : Store} {name : String}
    (plain : Path.PlainName name) {directory : Path}
    (h : store.projectDir? (.text name) = .ok (some directory)) :
    ∃ sources, store.settings.projectDirs = .ok sources ∧ ∃ source ∈ sources,
      ∀ directories, store.tree.subdirectories source = .ok directories →
        directory ∈ directories := by
  obtain ⟨sources, hsources, h⟩ := Attempt.of_bind_ok h
  obtain ⟨hmem, hholds⟩ := Attempt.of_findM?_ok h
  obtain ⟨source, hsource, rfl⟩ := List.mem_map.1 hmem
  refine ⟨sources, hsources, source, hsource, fun directories hdirectories => ?_⟩
  obtain ⟨found, hfound, hholds⟩ := Attempt.of_bind_ok hholds
  cases found with
  | none => cases hholds
  | some path =>
      rw [Path.child_plain plain] at hfound ⊢
      obtain ⟨hfile, hisFile⟩ := Attempt.of_findM?_ok hfound
      rw [Manifests.child_project] at hfile
      simp only [List.mem_cons, List.not_mem_nil, or_false] at hfile
      obtain rfl | rfl := hfile
      · exact Manifests.mem_subdirectories hdirectories plain.2.2.1 hisFile
      · exact Manifests.mem_subdirectories hdirectories plain.2.2.1 hisFile

end Playbook
