import Playbook.Proofs.Work
import Playbook.Recipe.Compilation

/-!
# Scripts that can be rendered

A script is rendered unless something else stands where a node should. None of
the nodes that a recipe is turned into is of that kind.
-/

namespace Playbook

namespace Shell.Node

mutual

/-- There is nothing in a node that is none. -/
def Renderable : Node → Prop
  | .line _ | .comment _ | .blank => True
  | .block _ body none _ => AllRenderable body
  | .block _ body (some other) _ => AllRenderable body ∧ AllRenderable other
  | .foreign _ => False

def AllRenderable : List Node → Prop
  | [] => True
  | node :: nodes => node.Renderable ∧ AllRenderable nodes

end

theorem allRenderable_iff {nodes : List Node} :
    AllRenderable nodes ↔ ∀ node ∈ nodes, node.Renderable := by
  induction nodes with
  | nil => simp [AllRenderable]
  | cons node nodes ih => simp [AllRenderable, ih]

@[simp] theorem allRenderable_nil : AllRenderable [] := trivial

@[simp] theorem allRenderable_cons {node : Node} {nodes : List Node} :
    AllRenderable (node :: nodes) ↔ node.Renderable ∧ AllRenderable nodes := Iff.rfl

@[simp] theorem allRenderable_append {nodes others : List Node} :
    AllRenderable (nodes ++ others) ↔ AllRenderable nodes ∧ AllRenderable others := by
  simp [allRenderable_iff, or_imp, forall_and]

@[simp] theorem renderable_line (text : String) : (line text).Renderable := trivial

@[simp] theorem renderable_comment (text : String) : (comment text).Renderable := trivial

@[simp] theorem renderable_blank : blank.Renderable := trivial

@[simp] theorem renderable_block {opener closer : String} {body : List Node} :
    (block opener body none closer).Renderable ↔ AllRenderable body := Iff.rfl

@[simp] theorem renderable_when {opener : String} {body : List Node} :
    (when opener body).Renderable ↔ AllRenderable body := Iff.rfl

@[simp] theorem renderable_choice {opener : String} {body other : List Node} :
    (choice opener body other).Renderable ↔ AllRenderable body ∧ AllRenderable other := Iff.rfl

theorem allRenderable_map {α : Type} {f : α → Node} (h : ∀ a, (f a).Renderable) (l : List α) :
    AllRenderable (l.map f) := by
  rw [allRenderable_iff]
  intro node hnode
  obtain ⟨a, -, rfl⟩ := List.mem_map.1 hnode
  exact h a

mutual

theorem exists_lines (depth : Int) : (node : Node) → node.Renderable →
    ∃ found, node.lines depth = .ok found
  | .line text, _ => ⟨_, rfl⟩
  | .comment text, _ => ⟨_, rfl⟩
  | .blank, _ => ⟨_, rfl⟩
  | .block opener body none closer, h => by
      obtain ⟨inner, hinner⟩ := exists_linesOf (depth + 1) body h
      exact ⟨_, by rw [lines, hinner]; rfl⟩
  | .block opener body (some other) closer, h => by
      obtain ⟨inner, hinner⟩ := exists_linesOf (depth + 1) body h.1
      obtain ⟨rest, hrest⟩ := exists_linesOf (depth + 1) other h.2
      exact ⟨_, by rw [lines, hinner, hrest]; rfl⟩
  | .foreign _, h => h.elim

theorem exists_linesOf (depth : Int) : (nodes : List Node) → AllRenderable nodes →
    ∃ found, linesOf depth nodes = .ok found
  | [], _ => ⟨_, rfl⟩
  | node :: nodes, h => by
      obtain ⟨first, hfirst⟩ := exists_lines depth node h.1
      obtain ⟨rest, hrest⟩ := exists_linesOf depth nodes h.2
      exact ⟨_, by rw [linesOf, hfirst, hrest]; rfl⟩

end

theorem linesOf_append (depth : Int) (nodes others : List Node) :
    linesOf depth (nodes ++ others) = do
      let first ← linesOf depth nodes
      let rest ← linesOf depth others
      return first ++ rest := by
  induction nodes with
  | nil =>
      rw [List.nil_append, linesOf]
      cases linesOf depth others <;> rfl
  | cons node nodes ih =>
      rw [List.cons_append, linesOf, linesOf, ih]
      cases lines depth node with
      | error fault => rfl
      | ok first =>
          cases linesOf depth nodes with
          | error fault => rfl
          | ok inner =>
              cases linesOf depth others with
              | error fault => rfl
              | ok rest => exact congrArg Except.ok (List.append_assoc first inner rest).symm

end Shell.Node

open Shell Shell.Node

theorem Shell.exists_render {nodes : List Node} (h : AllRenderable nodes) (depth : Int) :
    ∃ text, render nodes depth = .ok text := by
  obtain ⟨found, hfound⟩ := exists_linesOf depth nodes h
  exact ⟨_, by rw [render, hfound]; rfl⟩

/-! ## Nodes of a step -/

namespace Setting

variable {setting : Setting} {recipe : Recipe} {step : Step} {backend : Backend}

theorem allRenderable_documentLoaders : AllRenderable (setting.documentLoaders step) := by
  unfold documentLoaders
  split
  · exact allRenderable_nil
  · exact allRenderable_cons.2 ⟨renderable_comment _, allRenderable_map (by simp) _⟩

theorem allRenderable_refusal (reason : String) : AllRenderable (refusal reason) := by
  simp [refusal]

theorem allRenderable_guardNodes : AllRenderable (guardNodes step) := by
  unfold guardNodes
  split
  · simp
  · unfold checkNodes
    split <;> simp [allRenderable_refusal]
  · simp

theorem allRenderable_conditioned {body : List Node} (h : AllRenderable body) :
    AllRenderable (conditioned step body) := by
  unfold conditioned
  split <;> simp [h]

theorem allRenderable_confirmation :
    AllRenderable (if step.waitForConfirmation then confirmation else []) := by
  split <;> simp [confirmation]

theorem allRenderable_skipped (note message : String) :
    AllRenderable (skipped step note message) := by
  simp [skipped]

/-! ## Nodes around the steps -/

theorem allRenderable_setup : AllRenderable (setting.setup recipe backend) := by
  have hfiles : AllRenderable (backend.contextFiles.map fun path =>
      .when ("if [ -z \"$PROJECT_CONTEXT\" ] && [ -f \"" ++ path ++ "\" ]; then")
        [.line ("PROJECT_CONTEXT=$(cat \"" ++ path ++ "\")")]) := allRenderable_map (by simp) _
  simp [setup, Backend.contextLoader, hfiles]

theorem allRenderable_declarations : AllRenderable (setting.declarations recipe) := by
  unfold declarations
  dsimp only
  split
  · exact allRenderable_nil
  · have hdeclared := allRenderable_map (f := declaration setting.context)
      (fun _ => renderable_line _) (setting.variableDefaults recipe)
    simp [hdeclared]

theorem allRenderable_loopNodes (loop : Loop) (steps : List Step) {body : List Node}
    (h : AllRenderable body) : AllRenderable (loopNodes loop steps body) := by
  have hexit : AllRenderable (loopExit loop) := by
    unfold loopExit
    split
    · split <;> simp
    · simp
    · simp
  simp [loopNodes, h, hexit]

end Setting

/-! ## Nodes of a tool -/

namespace Backend

theorem allRenderable_outputDocument (backend : Backend) (invocation : Invocation) :
    AllRenderable (backend.outputDocument invocation) := by
  unfold outputDocument
  split
  · exact allRenderable_nil
  · dsimp only
    split <;> simp

theorem allRenderable_manualStep (tool : ManualTool) (invocation : Invocation) :
    AllRenderable (manualStep tool invocation) := by
  have hdocuments : AllRenderable (invocation.documents.map fun path =>
      .comment ("  - " ++ documentPath invocation.docsDir path)) :=
    allRenderable_map (fun _ => renderable_comment _) _
  unfold manualStep
  dsimp only
  split
  · split <;> split <;> simp [hdocuments]
  · split <;> simp [hdocuments]

end Backend

end Playbook
