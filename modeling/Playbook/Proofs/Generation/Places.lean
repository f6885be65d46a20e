import Playbook.Generation
import Playbook.Proofs.Store.Scripts
import Playbook.Proofs.Validation.Features

/-!
# Places of scripts

The scripts of one directory have files of their own: an id in kebab case is
the name of its file but for the ending.
-/

namespace Playbook

/-! ## Names -/

/-- An id in kebab case is the name of a file. -/
theorem Validation.slash_notMem {id : String} (h : isKebabCase id = true) : '/' ∉ id.toList := by
  intro hslash
  rcases mem_of_isKebabCase h hslash with h | h | h <;> cases h

theorem Path.plainName_of_isKebabCase {id : String} (h : Validation.isKebabCase id = true) :
    PlainName id := by
  have hpoint : '.' ∉ id.toList := by
    intro hpoint
    rcases Validation.mem_of_isKebabCase h hpoint with h | h | h <;> cases h
  refine ⟨?_, ?_, ?_, Validation.slash_notMem h⟩
  · rintro rfl
    revert h
    decide +kernel
  · rintro rfl
    exact hpoint (by decide)
  · rintro rfl
    exact hpoint (by decide)

/-- What has no slash in it becomes the name of a file with the ending of scripts. -/
theorem Path.plainName_script {name : String} (h : '/' ∉ name.toList) :
    PlainName (name ++ ".sh") := by
  have hne (other : String) (hother : ¬ Tree.IsScript other) : name ++ ".sh" ≠ other := by
    rintro rfl
    exact hother ⟨name.toList, String.toList_append.symm⟩
  refine ⟨hne "" (by decide), hne "." (by decide), hne ".." (by decide), fun hslash => ?_⟩
  rw [String.toList_append, List.mem_append] at hslash
  exact hslash.elim h (by decide)

/-! ## Directories -/

/-- A tool of a registry that was made of backends goes by the name of its backend. -/
theorem Registry.of_find?_ofBackends {backends : List Backend} {name : String} {backend : Backend}
    (h : (ofBackends backends).find? name = some backend) :
    backend ∈ backends ∧ backend.id = name := by
  rw [find?, ofBackends] at h
  induction backends with
  | nil => cases h
  | cons first rest ih =>
      rw [List.map_cons, List.lookup_cons] at h
      split at h
      · cases h
        exact ⟨List.mem_cons_self, (eq_of_beq ‹_›).symm⟩
      · exact (ih h).imp_left (List.mem_cons_of_mem _)

theorem Registry.id_of_find? {registry : Registry} (hregistry : registry = builtIn) {name : String}
    {backend : Backend} (h : registry.find? name = some backend) : backend.id = name :=
  (of_find?_ofBackends (hregistry ▸ h)).2

/-- The scripts of a tool go below a directory with its name. -/
theorem Registry.names_builtIn {name : String} {backend : Backend}
    (h : builtIn.find? name = some backend) (path : Path) :
    ((path.child backend.id).child backend.recipesDir).names =
      path.names ++ name :: (Path.ofText backend.recipesDir).names := by
  obtain ⟨hmem, rfl⟩ := of_find?_ofBackends h
  have hbackend : Path.PlainName backend.id ∧
      (Path.ofText backend.recipesDir).start = .here := by
    simp only [List.mem_cons, List.not_mem_nil, or_false] at hmem
    unfold Path.PlainName
    rcases hmem with rfl | rfl | rfl | rfl | rfl <;> decide +kernel
  rw [Path.child_plain hbackend.1, Path.child, Path.append, if_pos hbackend.2, Manifests.pathBelow,
    List.append_assoc]
  rfl

theorem Registry.of_getNamed_ok {registry : Registry} {tool : Value} {backend : Backend}
    (h : registry.getNamed tool = .ok backend) :
    ∃ name, tool = .text name ∧ registry.find? name = some backend := by
  unfold getNamed at h
  split at h
  · rename_i name
    refine ⟨name, rfl, ?_⟩
    unfold get at h
    split at h
    · cases h
      assumption
    · cases h
  · split at h
    · obtain ⟨_, -, h⟩ := Attempt.of_bind_ok h
      cases h
    · cases h

theorem Registry.of_findNamed?_ok {registry : Registry} {tool : Value} {backend : Backend}
    (h : registry.findNamed? tool = .ok (some backend)) :
    ∃ name, tool = .text name ∧ registry.find? name = some backend := by
  unfold findNamed? at h
  split at h
  · exact ⟨_, rfl, Except.ok.inj h⟩
  · split at h <;> cases h

theorem Order.of_outputDir_ok {order : Order} {settings : Settings} {backend : Backend}
    {directory : Path} (h : order.outputDir settings backend = .ok directory) :
    ∃ project, order.project.id = .text project ∧
      directory = ((settings.outputRoot.child project).child backend.id).child
        backend.recipesDir := by
  unfold outputDir at h
  split at h
  · cases h
    exact ⟨_, ‹_›, rfl⟩
  · cases h

/-! ## Paths -/

/-- The path of the script with a name. -/
def Order.scriptPath (directory : Path) (name : String) : Path := directory.child (name ++ ".sh")

theorem Path.child_script {name : String} (h : '/' ∉ name.toList) (directory : Path) :
    directory.child (name ++ ".sh") = Manifests.pathBelow directory [name ++ ".sh"] :=
  child_plain (plainName_script h) directory

theorem Tree.place_script {name : String} (h : '/' ∉ name.toList) (root directory : Path) :
    place (root.append (directory.child (name ++ ".sh"))) =
      place (root.append directory) ++ [name ++ ".sh"] := by
  have plain : ".." ∉ [name ++ ".sh"] := by simpa using Ne.symm (Path.plainName_script h).2.2.1
  rw [Path.child_script h, Path.append, Path.append, Manifests.pathBelow]
  dsimp only
  split
  · rw [place, ← List.append_assoc, resolveFrom_append plain, place]
  · rw [place, resolveFrom_append plain, place]

/-- Scripts with different names have different places. -/
theorem Tree.place_script_inj {name other : String} (h : '/' ∉ name.toList)
    (h' : '/' ∉ other.toList) {root directory : Path}
    (heq : place (root.append (directory.child (name ++ ".sh"))) =
      place (root.append (directory.child (other ++ ".sh")))) : name = other := by
  rw [place_script h, place_script h'] at heq
  exact String.append_left_inj _ |>.1 (List.singleton_inj.1 (List.append_cancel_left heq))

end Playbook
