import Playbook.Proofs.Tree
import Playbook.Proofs.Work
import Playbook.Proofs.Yaml.Document
import Playbook.Store

/-!
# Documents of trees

A document comes from a file that keeps it as a value or holds its text. What
is read from a text has its numbers in their usual form, so that only those of
the values that are kept can be in another.
-/

namespace Playbook

namespace Tree

variable {P : Value → Prop} {tree : Tree} {path : Path} {v : Value}

theorem exists_file_of_document (h : tree.document path = .ok (.ok v)) :
    ∃ f, tree.look path = .ok (.file f) ∧ f.content.value path.text = .ok v := by
  obtain ⟨opened, hopened, hcontent⟩ := Attempt.of_bind_ok h
  rw [open?] at hopened
  split at hopened
  · cases hopened
  · cases opened with
    | error trouble => cases hcontent
    | ok f =>
        refine ⟨f, ?_, ?_⟩
        · cases hlook : tree.look path with
          | error trouble =>
              rw [hlook] at hopened
              cases hopened
          | ok place =>
              rw [hlook] at hopened
              cases place <;> cases hopened
              rfl
        · dsimp only at hcontent
          split at hcontent <;> cases hcontent
          assumption

mutual

/-- Every value that is kept as a document has `P`. -/
def KeepsValues (P : Value → Prop) : Tree → Prop
  | .file f => ∀ v, f.content = .document v → P v
  | .directory entries => AllKeepValues P entries

def AllKeepValues (P : Value → Prop) : List (String × Tree) → Prop
  | [] => True
  | (_, child) :: rest => KeepsValues P child ∧ AllKeepValues P rest

end

theorem AllKeepValues.of_mem {entries : List (String × Tree)} (h : AllKeepValues P entries)
    {entry : String × Tree} (hentry : entry ∈ entries) : entry.2.KeepsValues P := by
  induction entries with
  | nil => cases hentry
  | cons first entries ih =>
      rcases List.mem_cons.1 hentry with rfl | hentry
      · exact h.1
      · exact ih h.2 hentry

theorem KeepsValues.of_look (h : tree.KeepsValues P) {found : Tree}
    (hlook : tree.look path = .ok found) : found.KeepsValues P :=
  follow_induction (fun _ hall _ hentry => AllKeepValues.of_mem hall hentry) (by simp) h
    (look_eq_ok_iff.1 hlook).2

/-- Where the values that are kept are normal, all documents are. -/
theorem KeepsValues.normal (h : tree.KeepsValues Value.Normal)
    (hdocument : tree.document path = .ok (.ok v)) : v.Normal := by
  obtain ⟨f, hlook, hvalue⟩ := exists_file_of_document hdocument
  have hkeeps : (Tree.file f).KeepsValues Value.Normal := h.of_look hlook
  cases hcontent : f.content with
  | document kept =>
      rw [hcontent] at hvalue
      cases hvalue
      exact hkeeps v hcontent
  | text s =>
      rw [hcontent] at hvalue
      exact Yaml.normal_read hvalue
  | bytes data =>
      rw [hcontent] at hvalue
      exact Yaml.normal_read hvalue

end Tree

namespace Manifests

variable {tree : Tree} {path : Path} {v : Value}

/-- A manifest is the document of its file. -/
theorem document_of_document (h : document tree path = .ok (.ok v)) :
    tree.document path = .ok (.ok v) := by
  obtain ⟨found, hfound, hkind⟩ := Attempt.of_bind_ok h
  cases found with
  | error trouble => cases hkind
  | ok value =>
      dsimp only at hkind
      split_ifs at hkind <;> cases hkind
      exact hfound

end Manifests

end Playbook
