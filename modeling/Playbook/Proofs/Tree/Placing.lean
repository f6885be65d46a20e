import Playbook.Proofs.Tree.Files
import Playbook.Proofs.Tree.Writing

/-!
# Files around a script

A script that is written is from then on the file at its place. Every other
place has the file that it had, or none as before.
-/

namespace Playbook.Tree

variable {root tree tree' made : Tree} {current path : Path} {entries : List (String × Tree)}
  {names init : List String} {last : String} {found : Option File}

/-- Two trees with the same files, but for one place, where the second has what is found. -/
def Sets (names : List String) (found : Option File) (tree tree' : Tree) : Prop :=
  ∀ others, tree'.fileAt? others = if others = names then found else tree.fileAt? others

theorem Sets.inside {name : String} {child child' : Tree}
    (hchild : entries.lookup name = some child) (h : Sets names found child child') :
    Sets (name :: names) found (.directory entries) (.directory (put name child' entries)) := by
  intro others
  cases others with
  | nil => simp
  | cons other others =>
      rw [fileAt?_cons, fileAt?_cons, lookup_put]
      by_cases hother : other = name
      · subst hother
        simp [hchild, h others]
      · simp [hother]

theorem Writable.sets {old : Option Tree} {new : Tree} (w : Writable last old new)
    (hold : entries.lookup last = old) :
    Sets [last] (new.fileAt? []) (.directory entries) (.directory (put last new entries)) := by
  intro others
  cases others with
  | nil => simp
  | cons other others =>
      rw [fileAt?_cons, fileAt?_cons, lookup_put]
      by_cases hother : other = last
      · subst hother
        cases w <;> cases others <;> simp [hold, fileAt?, empty]
      · simp [hother]

theorem At.fileAt?_eq {passed : List String} {above : List Tree} (h : At root passed above tree)
    (names : List String) : root.fileAt? (passed.reverse ++ names) = tree.fileAt? names := by
  induction h generalizing names with
  | top => rfl
  | @down passed above entries name child h hchild ih =>
      rw [List.reverse_cons, List.append_assoc, List.singleton_append, ih, fileAt?_cons, hchild]
      rfl

theorem At.sets {passed : List String} {above : List Tree} {new : Tree}
    (h : At root passed above tree) (hsets : Sets names found tree (tree.insert new names)) :
    Sets (passed.reverse ++ names) found root (root.insert new (passed.reverse ++ names)) := by
  induction h generalizing names with
  | top => exact hsets
  | @down passed above entries name child h hchild ih =>
      rw [List.reverse_cons, List.append_assoc, List.singleton_append]
      refine ih ?_
      rw [insert_cons, children, hchild, Option.getD_some]
      exact hsets.inside hchild

/-- What comes to the end of a path is all that changes. -/
theorem sets_insertAt (hnames : path.names = init ++ [last]) (hlast : last ≠ "..")
    (hparent : root.look path.parent = .ok (.directory entries)) {new : Tree}
    (w : Writable last (entries.lookup last) (new.covering ((entries.lookup last).getD empty))) :
    root.fileAt? (place path) = ((entries.lookup last).bind (·.fileAt? [])) ∧
      Sets (place path) ((new.covering ((entries.lookup last).getD empty)).fileAt? []) root
        (root.insertAt path new) := by
  obtain ⟨passed, above, hat, hplace, hinsert⟩ := insertAt_eq hnames hlast hparent new
  have hwhole : place path = passed.reverse ++ [last] := by
    rw [Path.parent, hnames, List.dropLast_concat] at hplace
    rw [place, hnames, resolveFrom_append (by simpa using Ne.symm hlast), hplace]
  rw [hinsert, hwhole]
  refine ⟨(hat.fileAt?_eq [last]).trans fileAt?_cons, hat.sets ?_⟩
  rw [insert_cons, children, insert]
  exact w.sets rfl

/-! ## Directories -/

theorem fileAt?_makeDirectory (h : root.makeDirectory path = .ok made) (names : List String) :
    made.fileAt? names = root.fileAt? names := by
  obtain ⟨init, last, entries, hnames, hlast, -, hparent, hfree, rfl⟩ := of_makeDirectory_ok h
  have w : Writable last (entries.lookup last)
      (empty.covering ((entries.lookup last).getD empty)) := by
    rw [hfree]
    exact .directory hlast
  obtain ⟨hbefore, hsets⟩ := sets_insertAt hnames hlast hparent w
  rw [hsets names]
  split
  · rename_i heq
    rw [heq, hbefore, hfree]
    rfl
  · rfl

/-- Making directories leaves every file, also where it is given up. -/
theorem fileAt?_makeDirectories (root : Tree) (current path : Path) (names : List String) :
    (root.makeDirectories current path).1.fileAt? names = root.fileAt? names := by
  induction hlength : path.names.length using Nat.strong_induction_on generalizing path with
  | _ length ih =>
      rw [makeDirectories]
      split
      · exact fileAt?_makeDirectory ‹_› names
      · split
        · rfl
        · rename_i hfilled
          have hpos := List.length_pos_iff.2 hfilled
          have hparent := ih path.parent.names.length
            (by rw [Path.parent, List.length_dropLast]; omega) path.parent rfl
          split
          · rename_i hmakes
            rwa [hmakes] at hparent
          · rename_i hmakes
            rw [hmakes] at hparent
            split
            · exact (fileAt?_makeDirectory ‹_› names).trans hparent
            · exact hparent
      · rfl

/-! ## Scripts -/

theorem sets_putScript {text : String} (hnames : path.names = init ++ [last])
    (hscript : IsScript last)
    (hparent : root.look (current.append path.parent) = .ok (.directory entries))
    (h : root.putScript current path text = .ok made) :
    Sets (place (current.append path)) (some ⟨.text text, true⟩) root made := by
  obtain ⟨⟨init', hnames'⟩, hparents⟩ := @append_concat current path init last hnames
  rw [← hparents] at hparent
  obtain ⟨rfl, hcovering, w⟩ := of_putScript_ok hnames' hscript hparent h
  have hsets := (sets_insertAt hnames' hscript.ne_up hparent (by rwa [hcovering])).2
  rwa [hcovering] at hsets

/-- A script that is written is the file at its place, and all other files are as before. -/
theorem sets_writeScript {text : String} (hnames : path.names = init ++ [last])
    (hscript : IsScript last) (h : root.writeScript current path text = (made, .ok ())) :
    Sets (place (current.append path)) (some ⟨.text text, true⟩) root made := by
  obtain ⟨-, hmade⟩ := scripted_makeDirectories root current path.parent
  have hfiles := fileAt?_makeDirectories root current path.parent
  unfold writeScript at h
  split at h
  · cases h
  · split at h
    · cases h
    · rename_i before hmakes
      rw [hmakes] at hmade hfiles
      obtain ⟨entries, hparent⟩ := hmade rfl
      split at h
      · rename_i written hput
        cases h
        intro others
        rw [sets_putScript hnames hscript hparent hput others, hfiles]
      · cases h

end Playbook.Tree
