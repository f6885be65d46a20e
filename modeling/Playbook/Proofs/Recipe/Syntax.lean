import Playbook.Proofs.Recipe.Statements

/-!
# The syntax of scripts

A script is well formed whatever its recipe, its project and its tool: each of
its blocks is closed as it was opened and has something to carry out, and the
only loop is that of the recipe.
-/

namespace Playbook

open Work Shell Shell.Node

namespace Shell.Node

/-- Well-formed nodes with a number of loops. -/
structure Formed (looped : Bool) (count : Nat) (nodes : List Node) : Prop where
  wellFormed : allWellFormed looped nodes
  loops : loopsOf nodes = count

variable {looped : Bool} {nodes others : List Node}

theorem Formed.append {m n : Nat} (h : Formed looped m nodes) (h' : Formed looped n others) :
    Formed looped (m + n) (nodes ++ others) := by
  constructor
  · rw [allWellFormed_append, h.wellFormed, h'.wellFormed, Bool.and_self]
  · rw [loopsOf_append, h.loops, h'.loops]

theorem formed_of_consist {heads : List String} (hbreak : "break" ∈ heads)
    (h : AllConsist (Avoids heads) nodes) : Formed looped 0 nodes := by
  refine ⟨AllConsist.allWellFormed (fun text htext => ?_) nodes h, AllConsist.loopsOf nodes h⟩
  rw [(htext "break" hbreak).2, Bool.not_false, Bool.or_true]

theorem AllConsist.formed (h : AllConsist (Avoids outsideHeads) nodes) : Formed looped 0 nodes :=
  formed_of_consist List.mem_cons_self h

/-- In a loop every statement may stand. -/
theorem AllConsist.formed_looped {allowed : String → Prop} (h : AllConsist allowed nodes) :
    Formed true 0 nodes :=
  ⟨AllConsist.allWellFormed (fun _ _ => rfl) nodes h, AllConsist.loopsOf nodes h⟩

end Shell.Node

namespace Setting

variable {setting : Setting} {recipe : Recipe} {backend : Backend} {nodes : List Node}

theorem formed_contextLoader (backend : Backend) : Formed false 0 backend.contextLoader := by
  obtain ⟨body, hloader, hbody, hacts⟩ := backend.exists_contextLoader
  have hformed : Formed false 0 body := hbody.avoids.formed
  have hfunction : construct? "load_project_context() \x7b" "\x7d" = some .function := by decide
  have hloop : begins "for " "load_project_context() \x7b" = false := by decide
  rw [hloader]
  constructor
  · simp [allWellFormed, wellFormed, hfunction, hacts, hformed.wellFormed]
  · simp [loopsOf, loops, hloop, hformed.loops]

theorem formed_setup (setting : Setting) (recipe : Recipe) (backend : Backend) :
    Formed false 0 (setting.setup recipe backend) := by
  obtain ⟨first, last, hsetup, hfirst, hlast⟩ := exists_setup setting recipe backend
  rw [hsetup]
  exact (hfirst.avoids.formed.append (formed_contextLoader backend)).append hlast.avoids.formed

theorem construct?_for (limit : String) :
    construct? ("for iteration in $(seq 1 " ++ limit ++ "); do") "done" = some .loop ∧
      begins "for " ("for iteration in $(seq 1 " ++ limit ++ "); do") := by
  have hfront : begins "for " ("for iteration in $(seq 1 " ++ (limit ++ "); do")) :=
    begins_append (by decide) _
  have htest : Avoids ["if "] ("for iteration in $(seq 1 " ++ (limit ++ "); do")) :=
    Avoids.append (by decide) _
  have hopener := (htest "if " List.mem_cons_self).2
  have htail : ends "; do" ("for iteration in $(seq 1 " ++ (limit ++ "); do")) :=
    ends_append (ends_append (by decide) limit) _
  rw [String.append_assoc, construct?, isConditional, isTest, hopener, hfront, htail]
  exact ⟨rfl, rfl⟩

theorem formed_loopNodes (loop : Loop) (steps : List Step)
    (h : AllConsist (Avoids outsideHeads) nodes) :
    Formed false 1 (loopNodes loop steps nodes) := by
  obtain ⟨title, first, hnodes, hfirst, hacts⟩ := exists_loopNodes loop steps nodes
  obtain ⟨hloop, hfor⟩ := construct?_for (toString loop.maxIterations)
  have hbody : Formed true 0 (first ++ nodes ++ loopExit loop) :=
    (hfirst.formed_looped.append h.formed_looped).append (consist_loopExit loop).formed_looped
  replace hacts : (first ++ nodes ++ loopExit loop).any acts := by
    rw [List.any_append, List.any_append, hacts]
    rfl
  rw [hnodes]
  constructor
  · rw [allWellFormed, allWellFormed, wellFormed, wellFormed, hloop, hacts, hbody.wellFormed]
    rfl
  · rw [loopsOf, loopsOf, loops, loops, hfor, hbody.loops]
    rfl

theorem formed_of_emitsLoop {agentOf : Step → Option Agent} {steps : List Step}
    (h : setting.EmitsLoop recipe backend agentOf steps nodes) :
    ∃ count ≤ 1, Formed false count nodes ∧ (count = 1 ↔ recipe.loop.isSome ∧ steps ≠ []) := by
  cases h with
  | none hnone =>
      refine ⟨0, by decide, ⟨rfl, rfl⟩, ?_⟩
      rcases hnone with hnone | hnone <;> simp [hnone]
  | some hloop hsome hbody =>
      exact ⟨1, le_rfl, formed_loopNodes _ steps (consist_of_emitsAll hbody), by simp [hloop, hsome]⟩

/--
A script begins with the line that names the shell and ends with the echo that
it is completed. Every block is a conditional, a loop or the function that
loads the context, only conditionals have an alternative, each part of a block
has a line or a block, and only a loop is left by `break`. There is one loop
if the loop of the recipe names one of its steps, and else none.
-/
theorem wellFormed_script {tool : Value} {time : String} {s s' : Run × Log}
    (h : exec (setting.script recipe tool time) s = (.ok nodes, s')) :
    nodes.head? = some (.line "#!/bin/bash") ∧ nodes.getLast? = some setting.completion ∧
      allWellFormed false nodes ∧ loopsOf nodes ≤ 1 ∧
      (loopsOf nodes = 1 ↔ ∃ loop ∈ recipe.loop, ∃ name ∈ loop.steps, ∃ step ∈ recipe.steps,
        step.id = .text name) := by
  obtain ⟨backend, agentOf, outline, -, rfl, ⟨reports, hpartition⟩, hheader, hbefore, hloop,
    hbehind⟩ := exists_outline h
  obtain ⟨hordinary, hhead⟩ := consist_header hheader
  obtain ⟨count, hcount, hlooped, hone⟩ := formed_of_emitsLoop hloop
  have hfront : Formed false 0 (outline.front setting recipe backend) :=
    (hordinary.avoids.formed.append (formed_setup setting recipe backend)).append
      (formed_of_consist List.mem_cons_self consist_declarations)
  have hsteps : Formed false (0 + count + 0) outline.steps :=
    ((consist_of_emitsAll hbefore).formed.append hlooped).append (consist_of_emitsAll hbehind).formed
  have hcompletion : Formed false 0 [setting.completion] := by
    apply AllConsist.formed
    simp +decide [completion, String.append_assoc, Avoids.append]
  have hformed := (hfront.append hsteps).append hcompletion
  have hloops : loopsOf (outline.front setting recipe backend ++ outline.steps ++
      [setting.completion]) = count := by
    have hsum := hformed.loops
    omega
  refine ⟨?_, by simp, hformed.wellFormed, hloops ▸ hcount, ?_⟩
  · simp [Outline.front, hhead]
  · rw [hloops, hone]
    have hnamed := Partition.loopBody_ne_nil_iff hpartition
    constructor
    · rintro ⟨-, hsome⟩
      exact hnamed.1 hsome
    · intro hname
      have hsome := hnamed.2 hname
      obtain ⟨loop, hmem, -⟩ := hname
      exact ⟨Option.isSome_of_mem hmem, hsome⟩

theorem wellFormed_script_retry :
    ∃ nodes s', exec (retrySetting.script retryRecipe (.text "cursor") "today") (retryRun, []) =
        (.ok nodes, s') ∧
      nodes.head? = some (.line "#!/bin/bash") ∧ nodes.getLast? = some retrySetting.completion ∧
      allWellFormed false nodes ∧ loopsOf nodes = 1 := by
  obtain ⟨nodes, s', hscript⟩ := exists_script_retry
  obtain ⟨hhead, hlast, hformed, -, hloop⟩ := wellFormed_script hscript
  have hnamed : ∃ loop ∈ retryRecipe.loop, ∃ name ∈ loop.steps, ∃ step ∈ retryRecipe.steps,
      step.id = .text name :=
    ⟨_, rfl, "fix", List.mem_singleton_self _, _, List.mem_cons_of_mem _ List.mem_cons_self, rfl⟩
  exact ⟨nodes, s', hscript, hhead, hlast, hformed, hloop.2 hnamed⟩

end Setting

end Playbook
