import Playbook.Proofs.Manifest.Faults
import Playbook.Proofs.Recipe.Messages
import Playbook.Proofs.Recipe.Options
import Playbook.Proofs.Resolution.Admission

/-!
# Why a compilation fails

A recipe is passed over only if it has no steps. Whatever else can go wrong
as it is compiled lies in a value, a file or the name of the tool, provided
that this is so of reading the agents.
-/

namespace Playbook

open Fault (IsLocal)

/-! ## Tools -/

namespace Backend

variable {invocation : Invocation}

theorem isLocal_optionList (v : Value) : FailsBy IsLocal (optionList v) := by
  unfold optionList
  split
  · exact .ok _
  · exact .ok _
  · exact .ok _
  · exact v.isLocal_members.bind fun members => .mapM fun item _ => item.isLocal_shown

theorem isLocal_systemPrompt : FailsBy IsLocal (systemPrompt invocation) := by
  unfold systemPrompt
  dsimp only
  split
  · exact (Value.isLocal_trimmed _).bind fun text => text.isLocal_editable.bind fun _ => .ok _
  · exact .ok _

theorem isLocal_claudeFlags : FailsBy IsLocal (claudeFlags invocation) := by
  unfold claudeFlags
  refine (isLocal_optionList _).bind fun allowed => (isLocal_optionList _).bind fun disallowed => ?_
  exact (Value.isLocal_editable _).bind fun _ => .ok _

theorem isLocal_copilotFlags : FailsBy IsLocal (copilotFlags invocation) :=
  FailsBy.bind (.mapM fun _ _ => (isLocal_optionList _).bind fun _ => .ok _) fun _ => .ok _

theorem isLocal_step (backend : Backend) : FailsBy IsLocal (backend.step invocation) := by
  cases backend with
  | claudeCode => exact isLocal_systemPrompt.bind fun _ => isLocal_claudeFlags.bind fun _ => .ok _
  | copilotCli => exact isLocal_copilotFlags.bind fun _ => .ok _
  | manual tool => exact .ok _

end Backend

theorem Partition.isLocal_ofRecipe (recipe : Recipe) : FailsBy IsLocal (ofRecipe recipe) := by
  unfold ofRecipe
  split
  · simp
  · split
    · simp
    · split
      · exact FailsBy.error_iff.2 rfl
      · dsimp only
        split <;> simp

namespace Shell.Node

mutual

theorem isLocal_lines (depth : Int) : ∀ node : Node, FailsBy IsLocal (lines depth node)
  | .line _ | .comment _ | .blank => .ok _
  | .foreign _ => FailsBy.error_iff.2 rfl
  | .block _ body none _ => by
      rw [lines]
      exact (isLocal_linesOf _ body).bind fun _ => .ok _
  | .block _ body (some other) _ => by
      rw [lines]
      exact (isLocal_linesOf _ body).bind fun _ => (isLocal_linesOf _ other).bind fun _ => .ok _

theorem isLocal_linesOf (depth : Int) : ∀ nodes : List Node, FailsBy IsLocal (linesOf depth nodes)
  | [] => .ok _
  | node :: nodes => by
      rw [linesOf]
      exact (isLocal_lines depth node).bind fun _ => (isLocal_linesOf depth nodes).bind
        fun _ => .ok _

end

end Shell.Node

namespace Setting

variable {setting : Setting} {recipe : Recipe} {step : Step} {backend : Backend}

/-! ## Parts of a script -/

theorem isLocal_stepTitle (step : Step) (number : Int) :
    FailsBy IsLocal (stepTitle step number) :=
  step.id.isLocal_shown.bind fun _ => step.agent.isLocal_shown.bind fun _ => .ok _

theorem isLocal_stepNodes (index number : Int) (agent : Agent) :
    FailsBy IsLocal (setting.stepNodes recipe step index number backend agent) := by
  have htask : FailsBy IsLocal (setting.taskText recipe step) := by
    unfold taskText
    split
    · exact .ok _
    · exact FailsBy.error_iff.2 rfl
  unfold stepNodes
  refine FailsBy.bind (htask.bind fun task => .ok _) fun invocation => ?_
  refine backend.isLocal_step.bind fun call => ?_
  exact (isLocal_stepTitle step number).bind fun title => .ok _

theorem isLocal_commentOn (title : String) (id : Option Value) :
    FailsBy IsLocal (commentOn title id) := by
  cases id with
  | none => exact .ok []
  | some v => exact v.isLocal_shown.bind fun _ => .ok _

theorem isLocal_header (time : String) :
    FailsBy IsLocal (setting.header recipe backend time) := by
  have hdescription : FailsBy IsLocal (descriptionComment recipe) := by
    unfold descriptionComment
    split
    · exact (Value.isLocal_trimmed _).bind fun text => text.isLocal_shown.bind fun _ => .ok _
    · exact .ok []
  unfold header
  refine (isLocal_commentOn _ _).bind fun _ => (isLocal_commentOn _ _).bind fun _ => ?_
  exact hdescription.bind fun _ => (isLocal_commentOn _ _).bind fun _ => .ok _

end Setting

/-! ## Agents -/

open Work (exec)

/-- A desk gives the agents that it had, and it has read them by the time that one is held. -/
structure AgentDesk.Steady (given : Attempt (List (Value × Agent))) (desk : AgentDesk) : Prop where
  outcome : desk.shelf.outcome = given
  read : desk.cache ≠ [] → ∃ items, desk.shelf = .ready items

variable {P : Fault → Prop} {given : Attempt (List (Value × Agent))}

theorem AgentDesk.fails_get? (hlocal : ∀ fault, IsLocal fault → P fault) (hgiven : FailsBy P given)
    (id : Value) : Work.Fails P (Steady given) (get? id) := by
  rintro ⟨shelf, cache⟩ log ⟨houtcome, hread⟩
  unfold get?
  cases hkey : id.canBeKey with
  | false => exact ⟨FailsBy.error_iff.2 (hlocal _ rfl), houtcome, hread⟩
  | true =>
      rw [Bool.not_true, if_neg Bool.false_ne_true, Work.exec_bind_ok (Work.exec_state _ _)]
      dsimp only
      cases hheld : AgentCache.find? cache id with
      | some found => exact ⟨.ok _, houtcome, hread⟩
      | none =>
          -- a shelf that is asked is ready from then on, unless it cannot be read
          have hshelf : exec (Work.within (·.shelf) (fun shelf desk => { desk with shelf })
              (Shelf.get? id)) (AgentDesk.mk shelf cache, log) =
                match shelf with
                | .ready items => (.ok (Shelf.find? items id), ⟨.ready items, cache⟩, log)
                | .unread own (.ok items) =>
                    (.ok (Shelf.find? items id), ⟨.ready items, cache⟩, log ++ own)
                | .unread own (.error fault) => (.error fault, ⟨shelf, cache⟩, log ++ own) := by
            rcases shelf with ⟨own, fault | items⟩ | items <;>
              simp [Shelf.get?, Shelf.items, Work.exec_bind, hkey, Except.map]
          rw [Work.exec_bind, hshelf]
          rcases shelf with ⟨own, fault | items⟩ | items
          · exact ⟨FailsBy.error_iff.2 (hgiven fault houtcome.symm), houtcome, hread⟩
          · exact ⟨.ok _, houtcome, fun _ => ⟨items, rfl⟩⟩
          · exact ⟨.ok _, houtcome, fun _ => ⟨items, rfl⟩⟩

/-! ## Admissions -/

namespace Admissions

theorem fails_admits (hlocal : ∀ fault, IsLocal fault → P fault) (category : Category)
    (id : Value) (project : Project) :
    Work.Fails P (fun _ => True) (admits category id (some project)) := by
  intro admissions log _
  by_cases hreport : Admissions.Reportable (some project) category
  · rw [Admissions.exec_admits hreport]
    exact ⟨.ok _, trivial⟩
  · rw [Admissions.admits, Work.exec_bind_error (Admissions.exec_lists_of_not_reportable hreport _)]
    exact ⟨FailsBy.error_iff.2 (hlocal _ rfl), trivial⟩

end Admissions

namespace Setting

variable {setting : Setting} {recipe : Recipe} {step : Step} {backend : Backend}

/-- A recipe without steps is passed over with its reason, if its id can be shown. -/
theorem exec_compile_of_empty (hempty : recipe.steps = []) (tool : Value) (time : String)
    (s : Run × Log) :
    ∃ fault, exec (setting.compile recipe tool time) s = (.error fault, s) ∧
      (IsLocal fault ∨ ∃ id, fault = .uncompilable id "recipe has no steps") := by
  unfold compile script
  rw [if_pos (by simp [hempty])]
  cases hid : recipe.id.shown with
  | error fault => exact ⟨fault, rfl, .inl (recipe.id.isLocal_shown fault hid)⟩
  | ok id => exact ⟨.uncompilable id "recipe has no steps", rfl, .inr ⟨id, rfl⟩⟩

section

variable (hlocal : ∀ fault, IsLocal fault → P fault) (hgiven : FailsBy P given)

include hlocal

theorem fails_excludedBy? (agent : Agent) :
    Work.Fails P (fun run => run.agents.Steady given) (setting.excludedBy? agent) := by
  unfold excludedBy?
  cases setting.project with
  | none => exact .pure none
  | some project =>
      refine Work.Fails.bind ?_ fun _ => .pure _
      exact Work.Fails.within (fun _ _ => Admissions.fails_admits hlocal _ _ _)
        (fun _ _ => trivial) fun _ _ steady _ => steady

include hgiven

theorem fails_lowerStep (index number : Int) :
    Work.Fails P (fun run => run.agents.Steady given)
      (setting.lowerStep recipe step index number backend) := by
  have hget : Work.Fails P (fun run : Run => run.agents.Steady given)
      (inAgents (AgentDesk.get? step.agent)) :=
    Work.Fails.within (fun _ _ => AgentDesk.fails_get? hlocal hgiven step.agent)
      (fun _ steady => steady) fun _ _ _ steady => steady
  unfold lowerStep
  refine Work.Fails.bind (.attempt ((isLocal_stepTitle step number).mono hlocal)) fun title => ?_
  refine hget.bind fun found => ?_
  cases found with
  | none => exact (Work.Fails.tell _).bind fun _ => .pure _
  | some agent =>
      refine (fails_excludedBy? hlocal agent).bind fun excluded => ?_
      cases excluded with
      | none => exact .attempt ((isLocal_stepNodes index number agent).mono hlocal)
      | some project => exact (Work.Fails.tell _).bind fun _ => .pure _

theorem fails_lowerGroup (steps : List Step) :
    Work.Fails P (fun run => run.agents.Steady given)
      (setting.lowerGroup recipe steps backend) :=
  (Work.Fails.mapM fun _ _ => fails_lowerStep hlocal hgiven _ _).bind fun _ => .pure _

theorem fails_lowerLoop (steps : List Step) :
    Work.Fails P (fun run => run.agents.Steady given)
      (setting.lowerLoop recipe steps backend) := by
  unfold lowerLoop
  cases recipe.loop with
  | none => exact .pure []
  | some loop =>
      refine .ite (fun _ => .pure []) fun _ => ?_
      refine Work.Fails.bind (.attempt ((Value.isLocal_shown _).mono hlocal)) fun _ => ?_
      exact (fails_lowerGroup hlocal hgiven steps).bind fun _ => .pure _

/-- A compilation fails for having no steps or for the name of its tool, else by a local fault. -/
theorem fails_compile (hempty : recipe.steps = [] → ∀ id reason, P (.uncompilable id reason))
    {tool : Value} (htool : FailsBy P (setting.registry.getNamed tool)) (time : String) :
    Work.Fails P (fun run => run.agents.Steady given) (setting.compile recipe tool time) := by
  by_cases hnone : recipe.steps = []
  · intro run log hrun
    obtain ⟨fault, hfails, hfault⟩ :=
      @exec_compile_of_empty setting recipe hnone tool time (run, log)
    rw [hfails]
    refine ⟨FailsBy.error_iff.2 ?_, hrun⟩
    rcases hfault with hfault | ⟨id, rfl⟩
    · exact hlocal fault hfault
    · exact hempty hnone id _
  unfold compile script
  rw [if_neg (by simpa using hnone)]
  refine Work.Fails.bind ?_ fun nodes =>
    .attempt (((Shell.Node.isLocal_linesOf 0 nodes).bind fun _ => .ok _).mono hlocal)
  refine Work.Fails.bind (.attempt htool) fun backend => ?_
  refine Work.Fails.bind (.attempt ((Partition.isLocal_ofRecipe recipe).mono hlocal)) ?_
  rintro ⟨partition, reports⟩
  refine (Work.Fails.tell reports).bind fun _ => ?_
  have hrest : Work.Fails P (fun run : Run => run.agents.Steady given) (do
      let header ← Work.attempt (setting.header recipe backend time)
      let before ← setting.lowerGroup recipe partition.preLoop backend
      let loop ← setting.lowerLoop recipe partition.loopBody backend
      let behind ← setting.lowerGroup recipe partition.postLoop backend
      let done := if setting.feature.isSome then "Feature" else "Recipe"
      return header ++ setting.setup recipe backend ++ setting.declarations recipe ++ before ++
        loop ++ behind ++ [.line ("echo \"✅ " ++ done ++ " completed!\"")]) := by
    refine Work.Fails.bind (.attempt ((isLocal_header time).mono hlocal)) fun header => ?_
    refine (fails_lowerGroup hlocal hgiven _).bind fun before => ?_
    refine (fails_lowerLoop hlocal hgiven _).bind fun loop => ?_
    exact (fails_lowerGroup hlocal hgiven _).bind fun behind => .pure _
  exact .ite (fun _ => (Work.Fails.throw (hlocal .wrongType rfl)).bind fun _ => hrest)
    fun _ => hrest

end

/-- A recipe with steps is not passed over. -/
theorem aborts_compile (hgiven : given.Aborts) (hfilled : recipe.steps ≠ []) (tool : Value)
    (time : String) :
    Work.Aborts (fun run => run.agents.Steady given) (setting.compile recipe tool time) := by
  refine fails_compile (fun _ hlocal => hlocal.aborts) hgiven (fun hnone => absurd hnone hfilled) ?_
    time
  unfold Registry.getNamed
  split
  · unfold Registry.get
    split <;> simp [Fault.Aborts]
  · split
    · exact (tool.isLocal_shown.mono fun _ hlocal => hlocal.aborts).bind fun _ =>
        FailsBy.error_iff.2 (by simp [Fault.Aborts])
    · simp [Fault.Aborts]

end Setting

end Playbook
