import Playbook.Proofs.Shell.Rendering
import Playbook.Proofs.Success

/-!
# Options of a recipe

The options for a tool may hold any value, and no schema says what a tool
expects of them. A tool writes a step exactly where it gets what it expects.
-/

namespace Playbook

open Attempt (SucceedsIff)
open Shell.Node (AllRenderable allRenderable_nil)

/-! ## Single options -/

namespace Value

/-- An option that can be read as a list of texts. -/
def IsOptionList (v : Value) : Prop :=
  v = .null ∨ v = .bool false ∨
    ∃ members, v.members = .ok members ∧ ∀ x ∈ members, x.isShowable = true

/-- An option that is a text where it is given. -/
def IsOptionText (v : Value) : Prop := v.isGiven = true → ∃ s, v = .text s

theorem succeedsIff_shown (v : Value) :
    SucceedsIff (v.isShowable = true) (fun _ => True) v.shown := by
  rw [shown]
  split
  · case isTrue hv => exact (SucceedsIff.ok trivial).iff (by simp [hv])
  · case isFalse hv => exact (SucceedsIff.error (by simp [Fault.Aborts])).iff (by simp [hv])

theorem aborts_of_members {v : Value} {fault : Fault} (h : v.members = .error fault) :
    fault.Aborts := by
  unfold members at h
  split at h <;> cases h
  simp [Fault.Aborts]

theorem editable_of_ne_text {v : Value} (h : ∀ s, v ≠ .text s) :
    ∃ fault, v.editable = .error fault ∧ fault.Aborts := by
  cases v with
  | text s => exact absurd rfl (h s)
  | bytes data | day d | instant t => exact ⟨.wrongType, rfl, by simp [Fault.Aborts]⟩
  | _ => exact ⟨.lacksOperation, rfl, by simp [Fault.Aborts]⟩

theorem succeedsIff_editable (v : Value) (usual : String) :
    SucceedsIff v.IsOptionText (fun _ => True) (v.orElse (.text usual)).editable := by
  rw [orElse]
  by_cases hgiven : v.isGiven = true
  · rw [if_pos hgiven]
    constructor
    case given =>
      intro htext
      obtain ⟨s, rfl⟩ := htext hgiven
      exact ⟨s, rfl, trivial⟩
    case refused =>
      intro hnot
      refine editable_of_ne_text ?_
      rintro s rfl
      exact hnot fun _ => ⟨s, rfl⟩
  · rw [if_neg hgiven]
    exact (SucceedsIff.of_ok rfl trivial).iff (by simp [IsOptionText, hgiven])

end Value

namespace Backend

theorem succeedsIff_optionList (v : Value) :
    SucceedsIff v.IsOptionList (fun _ => True) (optionList v) := by
  unfold optionList
  split
  · exact (SucceedsIff.ok trivial).iff (by simp [Value.IsOptionList])
  · exact (SucceedsIff.ok trivial).iff (by simp [Value.IsOptionList])
  · case h_3 s =>
    have hlist : (Value.text s).IsOptionList := by
      refine .inr (.inr ⟨_, rfl, fun x hx => ?_⟩)
      obtain ⟨c, -, rfl⟩ := List.mem_map.1 hx
      rfl
    exact (SucceedsIff.ok trivial).iff (by simp [hlist])
  · case h_4 hnull hfalse _ =>
    have hlist : v.IsOptionList ↔
        ∃ members, v.members = .ok members ∧ ∀ x ∈ members, x.isShowable = true :=
      (or_iff_right hnull).trans (or_iff_right hfalse)
    rw [hlist]
    cases hmembers : v.members with
    | error fault => exact (SucceedsIff.error (Value.aborts_of_members hmembers)).iff (by simp)
    | ok members =>
        exact (SucceedsIff.mapM fun x _ => x.succeedsIff_shown).mono (by simp) fun _ _ => trivial

/-! ## Flags -/

/-- The option of a name, `null` where it is not given. -/
def optionIn (options : Entries) (name : String) : Value :=
  (Entries.get? options name).getD .null

/-- Every option that a tool reads is of the kind that it expects. -/
def Takes (backend : Backend) (options : Entries) : Prop :=
  match backend with
  | .claudeCode =>
      (optionIn options "allowedTools").IsOptionList ∧
        (optionIn options "disallowedTools").IsOptionList ∧
          (optionIn options "permissionMode").IsOptionText
  | .copilotCli => ∀ entry ∈ repeatedFlags, (optionIn options entry.1).IsOptionList
  | .manual _ => True

variable {invocation : Invocation}

theorem succeedsIff_claudeFlags :
    SucceedsIff (claudeCode.Takes invocation.options) (fun _ => True)
      (claudeFlags invocation) := by
  unfold claudeFlags
  refine ((succeedsIff_optionList _).bind fun allowed _ => (succeedsIff_optionList _).bind
    fun disallowed _ => (Value.succeedsIff_editable _ _).bind fun mode _ =>
      SucceedsIff.ok trivial).iff ?_
  simp [Takes, option, optionIn]

theorem succeedsIff_copilotFlags :
    SucceedsIff (copilotCli.Takes invocation.options) (fun _ => True)
      (copilotFlags invocation) := by
  unfold copilotFlags
  have hflag (entry : String × String) :
      SucceedsIff (optionIn invocation.options entry.1).IsOptionList (fun _ => True)
        (repeatedFlag invocation entry) := by
    unfold repeatedFlag
    exact ((succeedsIff_optionList _).bind fun values _ => SucceedsIff.ok trivial).iff
      (by simp [option, optionIn])
  refine ((SucceedsIff.mapM fun entry _ => hflag entry).bind fun lists _ =>
    SucceedsIff.ok trivial).iff ?_
  simp [Takes]

/-! ## Steps -/

theorem succeeds_systemPrompt {text : String}
    (h : invocation.agent.prompt.system = .text text) :
    SucceedsIff True AllRenderable (systemPrompt invocation) := by
  unfold systemPrompt
  rw [h]
  dsimp only
  split
  · exact SucceedsIff.of_ok rfl (by simp [systemPromptLine])
  · exact SucceedsIff.of_ok rfl (by simp [systemPromptLine])

/-- A tool writes the step of an agent where it takes the options. -/
theorem succeedsIff_step (backend : Backend) {text : String}
    (h : invocation.agent.prompt.system = .text text) :
    SucceedsIff (backend.Takes invocation.options) AllRenderable (backend.step invocation) := by
  cases backend with
  | claudeCode =>
      refine ((succeeds_systemPrompt h).bind fun system hsystem =>
        succeedsIff_claudeFlags.bind fun flags _ => SucceedsIff.ok ?_).iff (by simp)
      cases invocation.continuation <;> cases invocation.chainStart <;>
        simp [hsystem, resumeConversation, captureConversation]
  | copilotCli =>
      refine (succeedsIff_copilotFlags.bind fun flags _ => SucceedsIff.ok ?_).iff (by simp)
      simp
  | manual tool => exact SucceedsIff.ok (allRenderable_manualStep tool invocation)

end Backend

end Playbook
