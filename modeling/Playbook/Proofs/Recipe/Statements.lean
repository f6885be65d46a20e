import Playbook.Proofs.Recipe.Compilation
import Playbook.Proofs.Shell.Syntax

/-!
# Statements of a recipe

Some statements of a script stand in certain places only: those that leave a
loop, set a response, keep or take up a conversation, or declare a variable.
All other nodes consist of ordinary statements and of conditionals that have
something to carry out in each part.
-/

namespace Playbook

open Shell Shell.Node

namespace Shell

def conversationHead : String := "CONVERSATION_ID="

def resumptionHead : String := "CONTINUE_ARGS="

def declarationHead : String := ": $\x7b"

/-- The heads of statements that stand outside of the steps. -/
def outsideHeads : List String := ["break", declarationHead]

/-- The heads of statements that get a response, keep a conversation or take it up. -/
def exchangeHeads : List String := [responseHead, conversationHead, resumptionHead]

def Ordinary (text : String) : Prop := Avoids (outsideHeads ++ exchangeHeads) text

instance (text : String) : Decidable (Ordinary text) := inferInstanceAs (Decidable (Avoids _ text))

theorem Ordinary.append {text : String} (h : Ordinary text) (rest : String) :
    Ordinary (text ++ rest) := Avoids.append h rest

theorem Ordinary.avoids {text : String} (h : Ordinary text) : Avoids outsideHeads text :=
  h.mono (List.subset_append_left _ _)

theorem ordinary_of_isTest {text : String} (h : isTest text) : Ordinary text := by
  have htest : Avoids (outsideHeads ++ exchangeHeads) "if " := by decide
  exact htest.of_begins h

namespace Node

theorem AllConsist.avoids {nodes : List Node} (h : AllConsist Ordinary nodes) :
    AllConsist (Avoids outsideHeads) nodes := h.mono (fun _ => Ordinary.avoids) nodes

theorem AllConsist.ordinary {nodes : List Node} (h : AllConsist Ordinary nodes) :
    ∀ text ∈ statementsOf nodes, Ordinary text := by
  intro text htext
  exact (AllConsist.mem_statementsOf nodes h htext).elim id ordinary_of_isTest

end Node

/-! ## Purposes -/

/-- What a statement is there for, where that matters. -/
inductive Purpose where
  | declaration
  | exchange

namespace Purpose

def heads : Purpose → List String
  | .declaration => [declarationHead]
  | .exchange => exchangeHeads

def has (purpose : Purpose) (text : String) : Bool := purpose.heads.any fun head => begins head text

/-- The statements for a purpose. -/
def among (purpose : Purpose) (nodes : List Node) : List String :=
  (statementsOf nodes).filter purpose.has

variable {purpose : Purpose} {text : String}

theorem has_of_begins {head : String} (hhead : head ∈ purpose.heads) (h : begins head text) :
    purpose.has text := List.any_eq_true.2 ⟨head, hhead, h⟩

theorem has_eq_false {heads : List String} (hheads : purpose.heads ⊆ heads) (h : Avoids heads text) :
    purpose.has text = false := by
  rw [has, List.any_eq_false]
  intro head hhead
  simpa using (h head (hheads hhead)).2

theorem heads_subset (purpose : Purpose) : purpose.heads ⊆ outsideHeads ++ exchangeHeads := by
  cases purpose <;> decide

theorem has_of_ordinary (h : Ordinary text) : purpose.has text = false :=
  has_eq_false purpose.heads_subset h

@[simp] theorem among_nil (purpose : Purpose) : purpose.among [] = [] := by
  simp [among]

@[simp] theorem among_append (purpose : Purpose) (nodes others : List Node) :
    purpose.among (nodes ++ others) = purpose.among nodes ++ purpose.among others := by
  simp [among]

theorem among_line (h : Ordinary text) (nodes : List Node) :
    purpose.among (.line text :: nodes) = purpose.among nodes := by
  simp [among, has_of_ordinary h]

theorem among_choice (h : Ordinary text) (body other nodes : List Node) :
    purpose.among (.choice text body other :: nodes) =
      purpose.among body ++ purpose.among other ++ purpose.among nodes := by
  simp [among, has_of_ordinary h]

theorem among_comment (text : String) (nodes : List Node) :
    purpose.among (.comment text :: nodes) = purpose.among nodes := by
  simp [among]

theorem among_of_ordinary {nodes : List Node} (h : ∀ text ∈ statementsOf nodes, Ordinary text) :
    purpose.among nodes = [] := by
  rw [among, List.filter_eq_nil_iff]
  intro text htext
  simp [has_of_ordinary (h text htext)]

theorem among_of_consist {heads : List String} {nodes : List Node} (hheads : purpose.heads ⊆ heads)
    (h : AllConsist (Avoids heads) nodes) : purpose.among nodes = [] := by
  rw [among, List.filter_eq_nil_iff]
  intro text htext
  rcases AllConsist.mem_statementsOf nodes h htext with havoids | htest
  · simp [has_eq_false hheads havoids]
  · simp [has_of_ordinary (ordinary_of_isTest htest)]

end Purpose

theorem Node.AllConsist.among {nodes : List Node} (h : AllConsist Ordinary nodes)
    (purpose : Purpose) : purpose.among nodes = [] := Purpose.among_of_ordinary h.ordinary

end Shell

/-! ## Nodes of a step -/

namespace Setting

variable {setting : Setting} {recipe : Recipe} {step : Step} {backend : Backend}

theorem consist_documentLoaders : AllConsist Ordinary (setting.documentLoaders step) := by
  unfold documentLoaders
  split
  · exact allConsist_nil
  · rw [allConsist_cons]
    refine ⟨consists_comment _, allConsist_map fun entry hentry => ?_⟩
    obtain ⟨rest, hname, -⟩ := exists_of_mem_documentVariables (List.of_mem_zip hentry).2
    simp +decide [hname, String.append_assoc, isConditional_append, Ordinary.append, acts]

theorem consist_refusal (reason : String) : AllConsist Ordinary (refusal reason) := by
  simp +decide [refusal, String.append_assoc, Ordinary.append]

theorem any_acts_refusal (reason : String) : (refusal reason).any acts := by
  simp [refusal, acts]

theorem consist_guardNodes : AllConsist Ordinary (guardNodes step) := by
  unfold guardNodes
  split
  · simp
  · unfold checkNodes
    split <;>
      simp +decide [String.append_assoc, isConditional_append, Ordinary.append, consist_refusal,
        any_acts_refusal]
  · simp

theorem consist_confirmation :
    AllConsist Ordinary (if step.waitForConfirmation then confirmation else []) := by
  split <;> simp +decide [confirmation]

theorem consist_conditioned (step : Step) {body : List Node} (hacts : body.any acts)
    (h : AllConsist (Avoids outsideHeads) body) :
    AllConsist (Avoids outsideHeads) (conditioned step body) := by
  unfold conditioned
  split <;> simp +decide [String.append_assoc, isConditional_append, Avoids.append, acts, hacts, h]

theorem consist_skipped (note message : String) : AllConsist Ordinary (skipped step note message) := by
  simp +decide [skipped, String.append_assoc, Ordinary.append]

/-! ## Nodes around the steps -/

theorem consist_commentOn {title : String} {id : Option Value} {nodes : List Node}
    (h : commentOn title id = .ok nodes) : AllConsist Ordinary nodes := by
  cases id with
  | none => cases h; simp
  | some id =>
      obtain ⟨text, _, h⟩ := Attempt.of_bind_ok h
      cases h
      simp

theorem consist_descriptionComment {nodes : List Node}
    (h : descriptionComment recipe = .ok nodes) : AllConsist Ordinary nodes := by
  unfold descriptionComment at h
  split at h
  · obtain ⟨trimmed, _, h⟩ := Attempt.of_bind_ok h
    obtain ⟨text, _, h⟩ := Attempt.of_bind_ok h
    cases h
    simp
  · cases h
    simp

theorem consist_header {time : String} {nodes : List Node}
    (h : setting.header recipe backend time = .ok nodes) :
    AllConsist Ordinary nodes ∧ nodes.head? = some (.line "#!/bin/bash") := by
  obtain ⟨feature, hfeature, h⟩ := Attempt.of_bind_ok h
  obtain ⟨name, hname, h⟩ := Attempt.of_bind_ok h
  obtain ⟨description, hdescription, h⟩ := Attempt.of_bind_ok h
  obtain ⟨project, hproject, h⟩ := Attempt.of_bind_ok h
  cases h
  simp +decide [consist_commentOn hfeature, consist_commentOn hname,
    consist_descriptionComment hdescription, consist_commentOn hproject]

theorem consist_declarations :
    AllConsist (Avoids ("break" :: exchangeHeads)) (setting.declarations recipe) := by
  unfold declarations
  dsimp only
  split
  · exact allConsist_nil
  · have hdeclared : AllConsist (Avoids ("break" :: exchangeHeads))
        ((setting.variableDefaults recipe).map (declaration setting.context)) := by
      apply allConsist_map
      intro entry _
      simp +decide [declaration, String.append_assoc, Avoids.append]
    simp [hdeclared]

/-- Setting up is ordinary around the function that loads the context. -/
theorem exists_setup (setting : Setting) (recipe : Recipe) (backend : Backend) :
    ∃ first last, setting.setup recipe backend = first ++ backend.contextLoader ++ last ∧
      AllConsist Ordinary first ∧ AllConsist Ordinary last := by
  refine ⟨_, _, rfl, ?_, ?_⟩
  · simp +decide [String.append_assoc, Ordinary.append]
  · simp +decide

/-- What ends a loop early has the only statements that leave it. -/
theorem consist_loopExit (loop : Loop) :
    AllConsist (Avoids (declarationHead :: exchangeHeads)) (loopExit loop) := by
  unfold loopExit
  split
  · split <;> simp +decide [String.append_assoc, isConditional_append]
  · simp +decide [String.append_assoc, isConditional_append, Avoids.append, acts]
  · simp

/-- The loop has the nodes of its steps between an announcement and what ends it early. -/
theorem exists_loopNodes (loop : Loop) (steps : List Step) (nodes : List Node) :
    ∃ title first, loopNodes loop steps nodes = [.comment title,
        .block ("for iteration in $(seq 1 " ++ toString loop.maxIterations ++ "); do")
          (first ++ nodes ++ loopExit loop) none "done",
        .blank] ∧
      AllConsist Ordinary first ∧ first.any acts := by
  refine ⟨_, _, rfl, ?_, ?_⟩
  · simp +decide [String.append_assoc, Ordinary.append]
  · simp [acts]

end Setting

/-! ## Nodes of a tool -/

namespace Backend

theorem exists_contextLoader (backend : Backend) :
    ∃ body, backend.contextLoader = [.comment "Function to load project context",
        .block "load_project_context() \x7b" body none "\x7d"] ∧
      AllConsist Ordinary body ∧ body.any acts := by
  refine ⟨_, rfl, ?_, ?_⟩
  · rw [allConsist_cons, consists_line]
    refine ⟨by decide, allConsist_map fun path _ => ?_⟩
    simp +decide [String.append_assoc, isConditional_append, Ordinary.append, acts]
  · simp [acts]

theorem consist_outputDocument (backend : Backend) (invocation : Invocation) :
    AllConsist Ordinary (backend.outputDocument invocation) := by
  unfold outputDocument
  split
  · exact allConsist_nil
  · dsimp only
    split <;> simp +decide [String.append_assoc, isConditional_append, Ordinary.append, acts]

variable {invocation : Invocation} {nodes : List Node}

theorem consist_systemPrompt (h : systemPrompt invocation = .ok nodes) :
    AllConsist Ordinary nodes := by
  unfold systemPrompt at h
  dsimp only at h
  split at h
  · obtain ⟨trimmed, _, h⟩ := Attempt.of_bind_ok h
    obtain ⟨text, _, h⟩ := Attempt.of_bind_ok h
    cases h
    simp +decide [systemPromptLine, String.append_assoc, Ordinary.append]
  · cases h
    simp +decide [systemPromptLine, String.append_assoc, Ordinary.append]

theorem consist_captureConversation : AllConsist (Avoids outsideHeads) captureConversation := by
  have hhead : Avoids outsideHeads "CONVERSATION_ID=$(echo \"$RESPONSE\" | " := by decide
  exact ⟨trivial, (hhead.append _).append _, trivial⟩

theorem consist_claudeStep (h : claudeStep invocation = .ok nodes) :
    AllConsist (Avoids outsideHeads) nodes ∧ nodes.any acts := by
  obtain ⟨system, hsystem, h⟩ := Attempt.of_bind_ok h
  obtain ⟨flags, _, h⟩ := Attempt.of_bind_ok h
  cases h
  have hprompt := (consist_systemPrompt hsystem).avoids
  cases invocation.continuation <;> cases invocation.chainStart <;>
    simp +decide [hprompt, resumeConversation, consist_captureConversation, String.append_assoc,
      Avoids.append, acts]

theorem consist_copilotStep (h : copilotStep invocation = .ok nodes) :
    AllConsist (Avoids outsideHeads) nodes ∧ nodes.any acts := by
  obtain ⟨flags, _, h⟩ := Attempt.of_bind_ok h
  cases h
  simp +decide [String.append_assoc, Avoids.append, acts]

/-- A manual tool gives ordinary instructions and leaves the response empty. -/
theorem exists_manualStep (tool : ManualTool) (invocation : Invocation) :
    ∃ first, manualStep tool invocation = first ++ [.line "RESPONSE=\"\""] ∧
      AllConsist Ordinary first := by
  have hdocuments : AllConsist Ordinary (invocation.documents.map fun path =>
      .comment ("  - " ++ documentPath invocation.docsDir path)) :=
    allConsist_map fun _ _ => consists_comment _
  refine ⟨_, (List.append_assoc _ [_, _, _, _] [_]).symm, ?_⟩
  split
  · split <;> split <;> simp +decide [hdocuments, String.append_assoc, Ordinary.append]
  · split <;> simp +decide [hdocuments, String.append_assoc, Ordinary.append]

/-- A call neither leaves a loop nor declares a variable, and has something to carry out. -/
theorem consist_step {backend : Backend} (h : backend.step invocation = .ok nodes) :
    AllConsist (Avoids outsideHeads) nodes ∧ nodes.any acts := by
  cases backend with
  | claudeCode => exact consist_claudeStep h
  | copilotCli => exact consist_copilotStep h
  | manual tool =>
      cases h
      obtain ⟨first, hnodes, hfirst⟩ := exists_manualStep tool invocation
      rw [hnodes]
      simp +decide [hfirst.avoids, acts]

end Backend

namespace Setting

variable {setting : Setting} {recipe : Recipe} {step : Step} {backend : Backend}

theorem ordinary_setup :
    ∀ text ∈ statementsOf (setting.setup recipe backend), Ordinary text := by
  obtain ⟨first, last, hsetup, hfirst, hlast⟩ := exists_setup setting recipe backend
  obtain ⟨body, hloader, hbody, -⟩ := backend.exists_contextLoader
  have hfunction : statements (.block "load_project_context() \x7b" body none "\x7d") =
      "load_project_context() \x7b" :: statementsOf body := by
    rw [statements]
  intro text htext
  rw [hsetup, hloader, statementsOf_append, statementsOf_append, statementsOf_cons,
    statementsOf_cons, statementsOf_nil, statements_comment, hfunction] at htext
  simp only [List.mem_append, List.mem_cons, List.append_nil, List.nil_append] at htext
  rcases htext with (htext | rfl | htext) | htext
  · exact hfirst.ordinary text htext
  · decide
  · exact hbody.ordinary text htext
  · exact hlast.ordinary text htext

theorem consist_stepNodes {index number : Int} {agent : Agent} {nodes : List Node}
    (h : setting.stepNodes recipe step index number backend agent = .ok nodes) :
    AllConsist (Avoids outsideHeads) nodes := by
  obtain ⟨invocation, call, title, -, hcall, -, rfl⟩ := of_stepNodes_ok h
  obtain ⟨hcalls, hacts⟩ := Backend.consist_step hcall
  have hbody : AllConsist (Avoids outsideHeads) (setting.documentLoaders step ++ call ++
      backend.outputDocument invocation ++ guardNodes step) := by
    simp [consist_documentLoaders.avoids, hcalls, consist_guardNodes.avoids,
      (backend.consist_outputDocument invocation).avoids]
  have hconditioned := consist_conditioned step (by simp [hacts]) hbody
  generalize conditioned step _ = inner at hconditioned
  simp +decide [hconditioned, consist_confirmation.avoids, String.append_assoc, Avoids.append]

theorem consist_of_emits {agentOf : Step → Option Agent} {index number : Int} {nodes : List Node}
    (h : setting.Emits recipe backend agentOf step index number nodes) :
    AllConsist (Avoids outsideHeads) nodes := by
  unfold Emits at h
  split at h
  · obtain ⟨note, message, rfl⟩ := h
    exact (consist_skipped note message).avoids
  · exact consist_stepNodes h

/-- The nodes of a group of steps neither leave a loop nor declare a variable. -/
theorem consist_of_emitsAll {agentOf : Step → Option Agent} {entries : List (Step × Nat)}
    {nodes : List Node} (h : setting.EmitsAll recipe backend agentOf entries nodes) :
    AllConsist (Avoids outsideHeads) nodes := by
  induction h with
  | nil => exact allConsist_nil
  | cons hemits _ ih => exact allConsist_append.2 ⟨consist_of_emits hemits, ih⟩

/-! ## Scripts -/

theorem among_loopNodes (purpose : Purpose) (loop : Loop) (steps : List Step) (nodes : List Node) :
    purpose.among (loopNodes loop steps nodes) = purpose.among nodes := by
  obtain ⟨title, first, hnodes, hfirst, -⟩ := exists_loopNodes loop steps nodes
  have hopener :
      Ordinary ("for iteration in $(seq 1 " ++ toString loop.maxIterations ++ "); do") := by
    rw [String.append_assoc]
    exact Avoids.append (by decide) _
  have hblank : purpose.among [.blank] = [] := Purpose.among_of_ordinary (by simp)
  have hblock (body : List Node) : purpose.among [.block ("for iteration in $(seq 1 " ++
      toString loop.maxIterations ++ "); do") body none "done"] = purpose.among body := by
    rw [Purpose.among, statementsOf_cons, statementsOf_nil, statements, List.append_nil,
      List.filter_cons_of_neg (by rw [Purpose.has_of_ordinary hopener]; exact Bool.false_ne_true)]
    rfl
  have hheads : purpose.heads ⊆ declarationHead :: exchangeHeads := by
    cases purpose <;> decide
  rw [hnodes, Purpose.among_comment, ← List.singleton_append, Purpose.among_append, hblank, hblock,
    Purpose.among_append, Purpose.among_append, hfirst.among,
    Purpose.among_of_consist hheads (consist_loopExit loop), List.nil_append, List.append_nil,
    List.append_nil]

/-- In front of the steps only the declarations have statements for a purpose. -/
theorem among_front {outline : Outline} {time : String}
    (hheader : setting.header recipe backend time = .ok outline.header) (purpose : Purpose) :
    purpose.among (outline.front setting recipe backend) =
      purpose.among (setting.declarations recipe) := by
  rw [Outline.front, Purpose.among_append, Purpose.among_append, (consist_header hheader).1.among,
    Purpose.among_of_ordinary ordinary_setup]
  rfl

theorem among_completion (setting : Setting) (purpose : Purpose) :
    purpose.among [setting.completion] = [] := by
  apply Purpose.among_of_ordinary
  simp +decide [completion, String.append_assoc, Ordinary.append]

end Setting

end Playbook
