import Playbook.Proofs.Tree.Scripts

/-!
# Writing a script

The directories above a script are made one after the other, and then the
script is put at its place. Each of these is one step, and the steps that
were done stay where a later one fails.
-/

namespace Playbook.Tree

variable {root tree made : Tree} {current path : Path} {entries : List (String × Tree)}
  {names init : List String} {last : String}

theorem At.puts {passed : List String} {above : List Tree} {old : Option Tree} {new put : Tree}
    (h : At root passed above tree) (hputs : Puts last old new tree (tree.insert put names)) :
    Puts last old new root (root.insert put (passed.reverse ++ names)) := by
  induction h generalizing names with
  | top => exact hputs
  | @down passed above entries name child h hchild ih =>
      rw [List.reverse_cons, List.append_assoc, List.singleton_append]
      refine ih ?_
      rw [insert_cons, children, hchild, Option.getD_some]
      exact .inside hchild hputs

/-- What is put at the end of a path comes into the directory that the path ends in. -/
theorem insertAt_eq (hnames : path.names = init ++ [last]) (hlast : last ≠ "..")
    (hparent : root.look path.parent = .ok (.directory entries)) (new : Tree) :
    ∃ passed above, At root passed above (.directory entries) ∧
      Path.resolveFrom [] path.parent.names = passed.reverse ∧
      root.insertAt path new = root.insert new (passed.reverse ++ [last]) := by
  have hinit : path.parent.names = init := by rw [Path.parent, hnames, List.dropLast_concat]
  obtain ⟨passed, above, hat, hplace⟩ := At.top.follow (look_eq_ok_iff.1 hparent).2
  refine ⟨passed, above, hat, hplace, ?_⟩
  rw [hinit] at hplace
  rw [insertAt, place, hnames, resolveFrom_append (by simpa using Ne.symm hlast), hplace]

theorem scriptStep_insertAt (hnames : path.names = init ++ [last]) (hlast : last ≠ "..")
    (hparent : root.look path.parent = .ok (.directory entries)) {new : Tree}
    (w : Writable last (entries.lookup last) (new.covering ((entries.lookup last).getD empty))) :
    ScriptStep root (root.insertAt path new) := by
  obtain ⟨passed, above, hat, -, hinsert⟩ := insertAt_eq hnames hlast hparent new
  rw [hinsert]
  refine ⟨_, _, _, w, hat.puts ?_⟩
  rw [insert_cons, children, insert]
  exact .here rfl

/-- A name at the end of a path is looked up in the directory in front of it. -/
theorem look_concat (hnames : path.names = init ++ [last])
    (hparent : root.look path.parent = .ok tree)
    (hshort : ¬ pathLimit < path.text.utf8ByteSize) :
    ∃ above, root.look path = tree.follow above [last] := by
  have hinit : path.parent.names = init := by rw [Path.parent, hnames, List.dropLast_concat]
  obtain ⟨above, happend⟩ := follow_append (look_eq_ok_iff.1 hparent).2
  rw [look, if_neg hshort, hnames, ← hinit, happend]
  exact ⟨above, rfl⟩

theorem look_insertAt (hnames : path.names = init ++ [last]) (hlast : last ≠ "..")
    (hparent : root.look path.parent = .ok (.directory entries)) {new : Tree}
    (w : Writable last (entries.lookup last) (new.covering ((entries.lookup last).getD empty)))
    (hlong : root.look path ≠ .error .nameTooLong) :
    (root.insertAt path new).look path =
      .ok (new.covering ((entries.lookup last).getD empty)) := by
  have hshort : ¬ pathLimit < path.text.utf8ByteSize := fun h => hlong (by rw [look, if_pos h])
  have hname : ¬ nameLimit < last.utf8ByteSize := by
    intro h
    obtain ⟨above, hlook⟩ := look_concat hnames hparent hshort
    exact hlong (by rw [hlook, follow_long hlast h])
  obtain ⟨passed, above, hat, hplace, hinsert⟩ := insertAt_eq hnames hlast hparent new
  obtain ⟨-, -, -, entries', -, hparent', -⟩ :=
    (scriptStep_insertAt hnames hlast hparent w).look_directory hparent
  obtain ⟨passed', above', hat', hplace'⟩ := At.top.follow (look_eq_ok_iff.1 hparent').2
  obtain rfl : passed = passed' := by rw [← List.reverse_inj, ← hplace, ← hplace']
  obtain ⟨above'', hinserted⟩ := hat.insert new [last]
  rw [← hinsert] at hinserted
  obtain ⟨-, heq⟩ := hat'.unique hinserted
  rw [insert_cons, children, insert] at heq
  cases heq
  obtain ⟨above, hlook⟩ := look_concat hnames hparent' hshort
  rw [hlook, follow_down hlast hname, lookup_put, if_pos rfl]
  rfl

/-- Where nothing is at the end of a path but something in front of it. -/
theorem free_of_look (h : root.look path = .error .missing)
    (hparent : root.look path.parent = .ok tree) :
    ∃ init last entries, path.names = init ++ [last] ∧ last ≠ ".." ∧ tree = .directory entries ∧
      entries.lookup last = none := by
  have hshort : ¬ pathLimit < path.text.utf8ByteSize := by
    intro hlong
    rw [look, if_pos hlong] at h
    cases h
  rcases List.eq_nil_or_concat path.names with hnil | ⟨init, last, hnames⟩
  · rw [look, if_neg hshort, hnil] at h
    cases h
  · rw [List.concat_eq_append] at hnames
    obtain ⟨above, hlook⟩ := look_concat hnames hparent hshort
    rw [hlook] at h
    cases tree with
    | file f => cases h
    | directory entries =>
        refine ⟨init, last, entries, hnames, ?_⟩
        by_cases hup : last = ".."
        · subst hup
          rw [follow_up] at h
          cases above <;> cases h
        · by_cases hlong : nameLimit < last.utf8ByteSize
          · rw [follow_long hup hlong] at h
            cases h
          · rw [follow_down hup hlong] at h
            refine ⟨hup, rfl, ?_⟩
            cases hchild : entries.lookup last with
            | none => rfl
            | some child =>
                rw [hchild] at h
                cases h

/-- A directory is made in another one, under a name that was free there. -/
theorem of_makeDirectory_ok (h : root.makeDirectory path = .ok made) :
    ∃ init last entries, path.names = init ++ [last] ∧ last ≠ ".." ∧
      root.look path = .error .missing ∧ root.look path.parent = .ok (.directory entries) ∧
      entries.lookup last = none ∧ made = root.insertAt path empty := by
  unfold makeDirectory at h
  split at h
  · cases h
  · rename_i hmissing
    cases hparent : root.look path.parent with
    | error trouble =>
        rw [hparent] at h
        cases h
    | ok found =>
        rw [hparent] at h
        cases h
        obtain ⟨init, last, entries, hnames, hlast, rfl, hfree⟩ := free_of_look hmissing hparent
        exact ⟨init, last, entries, hnames, hlast, hmissing, rfl, hfree, rfl⟩
  · cases h

theorem scriptStep_makeDirectory (h : root.makeDirectory path = .ok made) :
    ScriptStep root made ∧ made.look path = .ok empty := by
  obtain ⟨init, last, entries, hnames, hlast, hmissing, hparent, hfree, rfl⟩ :=
    of_makeDirectory_ok h
  have hcovering : empty.covering ((entries.lookup last).getD empty) = empty := by
    rw [hfree]
    rfl
  have w : Writable last (entries.lookup last)
      (empty.covering ((entries.lookup last).getD empty)) := by
    rw [hcovering, hfree]
    exact .directory hlast
  refine ⟨scriptStep_insertAt hnames hlast hparent w, ?_⟩
  rw [look_insertAt hnames hlast hparent w (by rw [hmissing]; rintro ⟨⟩), hcovering]

theorem look_of_settled {trouble : FileTrouble} (h : root.settled current path trouble = .ok ()) :
    ∃ entries, root.look (current.append path) = .ok (.directory entries) := by
  unfold settled at h
  split at h
  · exact ⟨_, ‹_›⟩
  · cases h

/-- Making directories goes in steps, and where it succeeds there is the directory. -/
theorem scripted_makeDirectories (root : Tree) (current path : Path) :
    Scripted root (root.makeDirectories current path).1 ∧
      ((root.makeDirectories current path).2 = .ok () → ∃ entries,
        (root.makeDirectories current path).1.look (current.append path) =
          .ok (.directory entries)) := by
  induction hlength : path.names.length using Nat.strong_induction_on generalizing path with
  | _ length ih =>
      rw [makeDirectories]
      split
      · rename_i made hmade
        obtain ⟨step, hlook⟩ := scriptStep_makeDirectory hmade
        exact ⟨.single step, fun _ => ⟨[], hlook⟩⟩
      · split
        · exact ⟨.refl, fun h => by cases h⟩
        · rename_i hfilled
          have hpos := List.length_pos_iff.2 hfilled
          obtain ⟨hscripted, -⟩ := ih path.parent.names.length
            (by rw [Path.parent, List.length_dropLast]; omega) path.parent rfl
          split
          · rename_i hmakes
            rw [hmakes] at hscripted
            exact ⟨hscripted, fun h => by cases h⟩
          · rename_i hmakes
            rw [hmakes] at hscripted
            split
            · rename_i made hmade
              obtain ⟨step, hlook⟩ := scriptStep_makeDirectory hmade
              exact ⟨hscripted.tail step, fun _ => ⟨[], hlook⟩⟩
            · exact ⟨hscripted, look_of_settled⟩
      · exact ⟨.refl, look_of_settled⟩

theorem append_concat (hnames : path.names = init ++ [last]) :
    (∃ init', (current.append path).names = init' ++ [last]) ∧
      (current.append path).parent = current.append path.parent := by
  have hparent : path.parent = ⟨path.start, init⟩ := by
    rw [Path.parent, hnames, List.dropLast_concat]
  rw [hparent, Path.append, Path.append]
  split
  · refine ⟨⟨current.names ++ init, by rw [hnames, List.append_assoc]⟩, ?_⟩
    simp [Path.parent, hnames, ← List.append_assoc]
  · exact ⟨⟨init, hnames⟩, hparent⟩

theorem lookup_of_look_file (hnames : path.names = init ++ [last]) (hlast : last ≠ "..")
    (hparent : root.look path.parent = .ok (.directory entries)) {f : File}
    (h : root.look path = .ok (.file f)) : entries.lookup last = some (.file f) := by
  obtain ⟨above, hlook⟩ := look_concat hnames hparent (look_eq_ok_iff.1 h).1
  obtain ⟨-, child, hchild, hfound⟩ := exists_child hlast (hlook.symm.trans h)
  cases hfound
  exact hchild

/-- A script is put in a directory, where under its name there was a file or nothing. -/
theorem of_putScript_ok {text : String} (hnames : (current.append path).names = init ++ [last])
    (hscript : IsScript last)
    (hparent : root.look (current.append path).parent = .ok (.directory entries))
    (h : root.putScript current path text = .ok made) :
    made = root.insertAt (current.append path) (.file ⟨.text text, true⟩) ∧
      covering (.file ⟨.text text, true⟩) ((entries.lookup last).getD empty) =
        .file ⟨.text text, true⟩ ∧
      Writable last (entries.lookup last) (.file ⟨.text text, true⟩) := by
  unfold putScript at h
  dsimp only at h
  split at h
  · cases h
  · split at h
    · cases h
    · rename_i f hfile
      cases h
      rw [lookup_of_look_file hnames hscript.ne_up hparent hfile]
      exact ⟨rfl, rfl, .again hscript _ f⟩
    · rename_i hmissing
      cases h
      obtain ⟨init', last', entries', hnames', -, hentries, hfree⟩ := free_of_look hmissing hparent
      obtain ⟨-, hlast⟩ := List.append_inj' (hnames.symm.trans hnames') rfl
      cases hlast
      cases hentries
      rw [hfree]
      exact ⟨rfl, rfl, .script hscript _⟩
    · cases h

theorem scriptStep_putScript {text : String} (hnames : path.names = init ++ [last])
    (hscript : IsScript last)
    (hparent : root.look (current.append path.parent) = .ok (.directory entries))
    (h : root.putScript current path text = .ok made) : ScriptStep root made := by
  obtain ⟨⟨init', hnames'⟩, hparents⟩ := @append_concat current path init last hnames
  rw [← hparents] at hparent
  obtain ⟨rfl, hcovering, w⟩ := of_putScript_ok hnames' hscript hparent h
  exact scriptStep_insertAt hnames' hscript.ne_up hparent (by rwa [hcovering])

/-- Writing a script goes in steps, also where it is given up. -/
theorem scripted_writeScript {text : String} (hnames : path.names = init ++ [last])
    (hscript : IsScript last) : Scripted root (root.writeScript current path text).1 := by
  obtain ⟨hscripted, hmade⟩ := scripted_makeDirectories root current path.parent
  unfold writeScript
  split
  · exact .refl
  · split
    · rename_i hmakes
      rwa [hmakes] at hscripted
    · rename_i made hmakes
      rw [hmakes] at hscripted hmade
      obtain ⟨entries, hparent⟩ := hmade rfl
      split
      · rename_i written hput
        exact hscripted.tail (scriptStep_putScript hnames hscript hparent hput)
      · exact hscripted

end Playbook.Tree
