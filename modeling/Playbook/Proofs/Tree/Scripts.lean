import Mathlib.Logic.Relation
import Playbook.Proofs.Tree

/-!
# Trees with scripts

Writing a script changes a tree in steps of one kind: under a name of one of
its directories comes an empty directory or a script, where there was nothing
or an older file. No file of another name comes, goes or changes.
-/

namespace Playbook.Tree

/-- The name of a script. -/
def IsScript (name : String) : Prop := ".sh".toList <:+ name.toList

instance (name : String) : Decidable (IsScript name) := by
  unfold IsScript
  infer_instance

theorem IsScript.ne_up {name : String} (h : IsScript name) : name ≠ ".." := by
  rintro rfl
  exact absurd h (by decide)

/-- What writing a script finds under a name, and what it puts there. -/
inductive Writable : String → Option Tree → Tree → Prop where
  | directory {name : String} (plain : name ≠ "..") : Writable name none empty
  | script {name : String} (h : IsScript name) (f : File) : Writable name none (.file f)
  | again {name : String} (h : IsScript name) (f g : File) :
      Writable name (some (.file g)) (.file f)

section

variable {last : String} {old : Option Tree} {new tree tree' : Tree}
  {entries : List (String × Tree)}

/-- In one of the directories of a tree something new has come under a name. -/
inductive Puts (last : String) (old : Option Tree) (new : Tree) : Tree → Tree → Prop where
  | here {entries : List (String × Tree)} (h : entries.lookup last = old) :
      Puts last old new (.directory entries) (.directory (put last new entries))
  | inside {entries : List (String × Tree)} {name : String} {child child' : Tree}
      (hchild : entries.lookup name = some child) (h : Puts last old new child child') :
      Puts last old new (.directory entries) (.directory (put name child' entries))

/-- The same tree, or the tree with something new in it. -/
def Keeps (last : String) (old : Option Tree) (new tree tree' : Tree) : Prop :=
  tree' = tree ∨ Puts last old new tree tree'

theorem Keeps.file_eq {f : File} (h : Keeps last old new (.file f) tree') : tree' = .file f := by
  obtain rfl | h := h
  · rfl
  · cases h

theorem Keeps.directory_eq (h : Keeps last old new (.directory entries) tree') :
    ∃ entries', tree' = .directory entries' ∧ ∀ name,
      (entries.lookup name = none ∧ entries'.lookup name = none) ∨
      (∃ child child', entries.lookup name = some child ∧ entries'.lookup name = some child' ∧
        Keeps last old new child child') ∨
      (name = last ∧ entries.lookup name = old ∧ entries'.lookup name = some new) := by
  have hsame (other : String) : (entries.lookup other = none ∧ entries.lookup other = none) ∨
      ∃ child child', entries.lookup other = some child ∧ entries.lookup other = some child' ∧
        Keeps last old new child child' := by
    cases hchild : entries.lookup other with
    | none => exact .inl ⟨rfl, rfl⟩
    | some child => exact .inr ⟨child, child, rfl, rfl, .inl rfl⟩
  obtain rfl | h := h
  · exact ⟨entries, rfl, fun other => (hsame other).imp_right .inl⟩
  · cases h with
    | here hold =>
        refine ⟨_, rfl, fun other => ?_⟩
        rw [lookup_put]
        by_cases hother : other = last
        · subst hother
          rw [if_pos rfl]
          exact .inr (.inr ⟨rfl, hold, rfl⟩)
        · rw [if_neg hother]
          exact (hsame other).imp_right .inl
    | @inside _ name child child' hchild h =>
        refine ⟨_, rfl, fun other => ?_⟩
        rw [lookup_put]
        by_cases hother : other = name
        · subst hother
          rw [if_pos rfl]
          exact .inr (.inl ⟨child, child', hchild, rfl, .inr h⟩)
        · rw [if_neg hother]
          exact (hsame other).imp_right .inl

/-! ## Finding what was there -/

/-- What is found at the end of a way before and after something was written. -/
inductive Follows (last : String) (old : Option Tree) (new : Tree) (names : List String) :
    Tree → Tree → Prop where
  | kept {found found' : Tree} (h : Keeps last old new found found') :
      Follows last old new names found found'
  | script {own : String} (hown : names.getLast? = some own) (h : IsScript own) (f g : File) :
      Follows last old new names (.file g) (.file f)

theorem Follows.cons {names : List String} {found found' : Tree}
    (h : Follows last old new names found found') (name : String) :
    Follows last old new (name :: names) found found' := by
  cases h with
  | kept h => exact .kept h
  | @script own hown h f g =>
      exact .script (by rw [List.getLast?_cons, hown, Option.getD_some]) h f g

/-- What was found is found again, and a name that was too long still is. -/
theorem follow_keeps (w : Writable last old new) {above above' : List Tree}
    (habove : List.Forall₂ (Keeps last old new) above above') (h : Keeps last old new tree tree')
    (names : List String) :
    (∀ found, tree.follow above names = .ok found →
      ∃ found', tree'.follow above' names = .ok found' ∧ Follows last old new names found found') ∧
    (tree.follow above names = .error .nameTooLong →
      tree'.follow above' names = .error .nameTooLong) := by
  induction names generalizing above above' tree tree' with
  | nil =>
      refine ⟨fun found hfound => ?_, fun hlong => by cases hlong⟩
      cases hfound
      exact ⟨tree', rfl, .kept h⟩
  | cons name names ih =>
      have hcons {result : Except FileTrouble Tree} {found : Tree}
          (hfound : ∃ found', result = .ok found' ∧ Follows last old new names found found') :
          ∃ found', result = .ok found' ∧ Follows last old new (name :: names) found found' := by
        obtain ⟨found', hresult, hfollows⟩ := hfound
        exact ⟨found', hresult, hfollows.cons name⟩
      cases tree with
      | file g => exact ⟨fun _ hfound => (by cases hfound), fun hlong => by cases hlong⟩
      | directory entries =>
          obtain ⟨entries', rfl, hlookup⟩ := h.directory_eq
          by_cases hup : name = ".."
          · subst hup
            rw [follow_up, follow_up]
            cases habove with
            | nil => exact (ih .nil h).imp_left fun hfound found heq => hcons (hfound found heq)
            | cons hparent hothers =>
                exact (ih hothers hparent).imp_left fun hfound found heq =>
                  hcons (hfound found heq)
          · by_cases hlong : nameLimit < name.utf8ByteSize
            · rw [follow_long hup hlong, follow_long hup hlong]
              exact ⟨fun _ hfound => (by cases hfound), fun _ => rfl⟩
            · rw [follow_down hup hlong, follow_down hup hlong]
              rcases hlookup name with ⟨hnone, hnone'⟩ | ⟨child, child', hchild, hchild', hkeeps⟩ |
                ⟨rfl, hold, hnew⟩
              · rw [hnone]
                exact ⟨fun _ hfound => (by cases hfound), fun hlong => by cases hlong⟩
              · rw [hchild, hchild']
                exact (ih (habove.cons h) hkeeps).imp_left fun hfound found heq =>
                  hcons (hfound found heq)
              · rw [hold, hnew]
                cases w with
                | directory | script =>
                    exact ⟨fun _ hfound => (by cases hfound), fun hlong => by cases hlong⟩
                | again hscript f g =>
                    cases names with
                    | nil =>
                        refine ⟨fun found hfound => ?_, fun hlong => by cases hlong⟩
                        cases hfound
                        exact ⟨.file f, rfl, .script rfl hscript f g⟩
                    | cons next names =>
                        exact ⟨fun _ hfound => (by cases hfound), fun hlong => by cases hlong⟩

/-! ## Not finding what was not there -/

theorem follow_empty {names : List String} (plain : ".." ∉ names) (above : List Tree) (f : File) :
    empty.follow above names ≠ .ok (.file f) := by
  intro h
  cases names with
  | nil => cases h
  | cons name names =>
      obtain ⟨hup, -⟩ := not_or.1 (mt List.mem_cons.2 plain)
      obtain ⟨-, child, hchild, -⟩ := exists_child (Ne.symm hup) h
      cases hchild

/-- A file that is found without `..` and is no script was there. -/
theorem follow_back (w : Writable last old new) (h : Keeps last old new tree tree')
    {names : List String} (plain : ".." ∉ names) (hlast : ∀ own ∈ names.getLast?, ¬ IsScript own)
    {above above' : List Tree} {f : File} (hfound : tree'.follow above' names = .ok (.file f)) :
    tree.follow above names = .ok (.file f) := by
  induction names generalizing above above' tree tree' with
  | nil =>
      cases hfound
      obtain rfl | h := h
      · rfl
      · cases h
  | cons name names ih =>
      obtain ⟨hup, hrest⟩ := not_or.1 (mt List.mem_cons.2 plain)
      have hlast' : ∀ own ∈ names.getLast?, ¬ IsScript own := by
        intro own hown
        exact hlast own (by rw [List.getLast?_cons, Option.mem_def.1 hown]; rfl)
      cases tree with
      | file g =>
          rw [h.file_eq] at hfound
          cases hfound
      | directory entries =>
          obtain ⟨entries', rfl, hlookup⟩ := h.directory_eq
          obtain ⟨hlong, found, hfound', hbelow⟩ := exists_child (Ne.symm hup) hfound
          rcases hlookup name with ⟨-, hnone'⟩ | ⟨child, child', hchild, hchild', hkeeps⟩ |
            ⟨rfl, -, hnew⟩
          · cases hnone'.symm.trans hfound'
          · cases hchild'.symm.trans hfound'
            rw [follow_down (Ne.symm hup) hlong, hchild]
            exact ih hkeeps hrest hlast' hbelow
          · cases hnew.symm.trans hfound'
            have hscript (hnames : names = []) : ¬ IsScript name :=
              hlast name (by rw [hnames]; rfl)
            cases w with
            | directory => exact absurd hbelow (follow_empty hrest _ f)
            | script hname f | again hname f g =>
                cases names with
                | nil => exact absurd hname (hscript rfl)
                | cons next names => cases hbelow

end

/-! ## Steps -/

/-- One step of writing a script. -/
def ScriptStep (tree tree' : Tree) : Prop :=
  ∃ last old new, Writable last old new ∧ Puts last old new tree tree'

/-- A tree in which scripts may have been written. -/
def Scripted : Tree → Tree → Prop := Relation.ReflTransGen ScriptStep

namespace ScriptStep

variable {tree tree' : Tree} {path directory : Path} {entries : List (String × Tree)}
  {names : List String}

theorem look_long (step : ScriptStep tree tree') (h : tree.look path = .error .nameTooLong) :
    tree'.look path = .error .nameTooLong := by
  obtain ⟨last, old, new, w, hputs⟩ := step
  unfold look at h ⊢
  split
  · rfl
  · rename_i hshort
    rw [if_neg hshort] at h
    exact (follow_keeps w .nil (.inr hputs) path.names).2 h

theorem look_found (step : ScriptStep tree tree') {found : Tree} (h : tree.look path = .ok found) :
    ∃ last old new found', Writable last old new ∧ tree'.look path = .ok found' ∧
      Follows last old new path.names found found' := by
  obtain ⟨last, old, new, w, hputs⟩ := step
  obtain ⟨hshort, hfollow⟩ := look_eq_ok_iff.1 h
  obtain ⟨found', hfound', hfollows⟩ := (follow_keeps w .nil (.inr hputs) path.names).1 _ hfollow
  exact ⟨last, old, new, found', w, look_eq_ok_iff.2 ⟨hshort, hfound'⟩, hfollows⟩

theorem look_file (step : ScriptStep tree tree') {f : File} (h : tree.look path = .ok (.file f))
    (hlast : ∀ own ∈ path.names.getLast?, ¬ IsScript own) :
    tree'.look path = .ok (.file f) := by
  obtain ⟨last, old, new, found', -, hfound', hfollows⟩ := step.look_found h
  cases hfollows with
  | kept hkeeps => rwa [hkeeps.file_eq] at hfound'
  | script hown hscript => exact absurd hscript (hlast _ hown)

theorem look_directory (step : ScriptStep tree tree')
    (h : tree.look path = .ok (.directory entries)) :
    ∃ last old new entries', Writable last old new ∧ tree'.look path = .ok (.directory entries') ∧
      Keeps last old new (.directory entries) (.directory entries') := by
  obtain ⟨last, old, new, found', w, hfound', hfollows⟩ := step.look_found h
  cases hfollows with
  | kept hkeeps =>
      obtain ⟨entries', rfl, -⟩ := hkeeps.directory_eq
      exact ⟨last, old, new, entries', w, hfound', hkeeps⟩

/-- A file below a directory is no new one, unless it is a script. -/
theorem look_back (step : ScriptStep tree tree') (h : tree.look directory = .ok (.directory entries))
    (plain : ".." ∉ names) (hlast : ∀ own ∈ names.getLast?, ¬ IsScript own) {f : File}
    (hfile : tree'.look { directory with names := directory.names ++ names } = .ok (.file f)) :
    tree.look { directory with names := directory.names ++ names } = .ok (.file f) := by
  obtain ⟨last, old, new, entries', w, hlook', hkeeps⟩ := step.look_directory h
  rw [look_below hlook' plain] at hfile
  rw [look_below h plain]
  split at hfile
  · cases hfile
  · rename_i hshort
    rw [if_neg hshort]
    exact follow_back w hkeeps plain hlast hfile

end ScriptStep

/-! ## Files -/

section

variable {tree tree' : Tree} {path directory : Path} {entries : List (String × Tree)}
  {names : List String}

theorem isFile_of_look (hzero : path.holdsZero = false) {f : File}
    (h : tree.look path = .ok (.file f)) : tree.isFile path = .ok true := by
  rw [isFile, ask_eq_some_iff.2 ⟨hzero, h⟩]
  rfl

theorem isFile_of_not_look (hzero : path.holdsZero = false)
    (hlong : tree.look path ≠ .error .nameTooLong) (h : ∀ f, tree.look path ≠ .ok (.file f)) :
    tree.isFile path = .ok false := by
  unfold isFile ask
  rw [if_neg (by simp [hzero])]
  cases hlook : tree.look path with
  | ok found =>
      cases found with
      | file f => exact absurd hlook (h f)
      | directory entries => rfl
  | error trouble =>
      cases trouble with
      | nameTooLong => exact absurd hlook hlong
      | _ => rfl

theorem isFile_ne_ok (hzero : path.holdsZero = false)
    (hlong : tree.look path = .error .nameTooLong) (b : Bool) : tree.isFile path ≠ .ok b := by
  intro h
  unfold isFile ask at h
  rw [if_neg (by simp [hzero]), hlong] at h
  cases h

namespace ScriptStep

/-- Whether there is a file of another name below a directory is as it was. -/
theorem isFile_eq (step : ScriptStep tree tree')
    (hdirectory : tree.look directory = .ok (.directory entries)) (plain : ".." ∉ names)
    (hlast : ∀ own ∈ names.getLast?, ¬ IsScript own)
    (hnames : names ≠ []) {b : Bool}
    (h : tree'.isFile { directory with names := directory.names ++ names } = .ok b) :
    tree.isFile { directory with names := directory.names ++ names } = .ok b := by
  cases hzero : Path.holdsZero { directory with names := directory.names ++ names } with
  | true =>
      unfold isFile ask at h ⊢
      rw [if_pos hzero] at h ⊢
      exact h
  | false =>
      have hlong : tree.look { directory with names := directory.names ++ names } ≠
          .error .nameTooLong :=
        fun hlook => isFile_ne_ok hzero (step.look_long hlook) b h
      cases b with
      | true =>
          obtain ⟨f, hfile⟩ := exists_file_of_isFile h
          exact isFile_of_look hzero (step.look_back hdirectory plain hlast hfile)
      | false =>
          refine isFile_of_not_look hzero hlong fun f hfile => ?_
          have hlast' : ∀ own ∈ (directory.names ++ names).getLast?, ¬ IsScript own := by
            rwa [List.getLast?_append_of_ne_nil _ hnames]
          cases h.symm.trans (isFile_of_look hzero (step.look_file hfile hlast'))

/-- The document in a file of another name stays. -/
theorem document_eq (step : ScriptStep tree tree') (h : tree.isFile path = .ok true)
    (hlast : ∀ own ∈ path.names.getLast?, ¬ IsScript own) :
    tree'.document path = tree.document path := by
  obtain ⟨f, hfile⟩ := exists_file_of_isFile h
  rw [document, document, open?, open?, hfile, step.look_file hfile hlast]

end ScriptStep

end

/-! ## Well-formed trees -/

section

variable {name : String} {child : Tree}

theorem mem_names_put {other : String} {entries : List (String × Tree)}
    (h : other ∈ (put name child entries).map (·.1)) :
    other = name ∨ other ∈ entries.map (·.1) := by
  induction entries with
  | nil => exact .inl (List.mem_singleton.1 h)
  | cons entry entries ih =>
      rw [put] at h
      split at h
      · exact (List.mem_cons.1 h).imp_right (List.mem_cons_of_mem _)
      · rcases List.mem_cons.1 h with rfl | h
        · exact .inr List.mem_cons_self
        · exact (ih h).imp_right (List.mem_cons_of_mem _)

theorem ProperEntries.put {entries : List (String × Tree)} (h : ProperEntries entries)
    (hname : name ≠ "..") (hchild : child.Proper) : ProperEntries (put name child entries) := by
  induction entries with
  | nil => exact ⟨hname, List.not_mem_nil, hchild, trivial⟩
  | cons entry entries ih =>
      obtain ⟨own, tree⟩ := entry
      obtain ⟨hup, hfresh, hproper, hrest⟩ := h
      rw [Tree.put]
      split
      · rename_i heq
        obtain rfl : own = name := heq
        exact ⟨hup, hfresh, hchild, hrest⟩
      · rename_i hne
        refine ⟨hup, fun hmem => ?_, hproper, ih hrest⟩
        exact (mem_names_put hmem).elim hne hfresh

theorem Puts.proper {last : String} {old : Option Tree} {new tree tree' : Tree}
    (h : Puts last old new tree tree') (hlast : last ≠ "..") (hnew : new.Proper)
    (proper : tree.Proper) : tree'.Proper := by
  induction h with
  | here => exact ProperEntries.put proper hlast hnew
  | inside hchild _ ih =>
      obtain ⟨hname, -, hproper⟩ := ProperEntries.of_mem proper (mem_of_lookup hchild)
      exact ProperEntries.put proper hname (ih hproper)

theorem ScriptStep.proper {tree tree' : Tree} (step : ScriptStep tree tree')
    (proper : tree.Proper) : tree'.Proper := by
  obtain ⟨last, old, new, w, hputs⟩ := step
  cases w with
  | directory plain => exact hputs.proper plain trivial proper
  | script h f | again h f g => exact hputs.proper h.ne_up trivial proper

end

end Playbook.Tree
