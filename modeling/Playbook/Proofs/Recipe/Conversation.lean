import Playbook.Proofs.Recipe.Statements

/-!
# Conversations

Where the steps of a recipe go on with one conversation, each call of a group
either starts it or takes it up. A call takes it up by the place of its step,
so a group whose first steps are left out may take up a conversation that was
not started in it.
-/

namespace Playbook

open Work Shell Shell.Node
open Shell.Purpose (exchange)

/-! ## Calls -/

namespace Backend

/-- What sets the variable of the conversation from a response. -/
def keepingLine : String :=
  "CONVERSATION_ID=$(echo \"$RESPONSE\" | " ++
    "grep -oE '(Conversation ID|session_id): [A-Za-z0-9-]+' | head -n 1 | " ++
    "sed -E 's/.*: //' || true)"

/-- A call gets a response. One tool takes a conversation up before it, or keeps it behind it. -/
def Exchange (backend : Backend) (call : Invocation) (texts : List String) : Prop :=
  ∃ response, begins responseHead response ∧
    texts =
      (if backend = .claudeCode ∧ call.continuation then
        ["CONTINUE_ARGS=(--continue)", "CONTINUE_ARGS=(--resume \"$CONVERSATION_ID\")"]
      else []) ++ [response] ++
      (if backend = .claudeCode ∧ call.chainStart then [keepingLine] else [])

variable {call : Invocation} {nodes : List Node}

theorem among_resumeConversation : exchange.among resumeConversation =
    ["CONTINUE_ARGS=(--continue)", "CONTINUE_ARGS=(--resume \"$CONVERSATION_ID\")"] := by
  decide

theorem among_captureConversation : exchange.among captureConversation = [keepingLine] := by
  have hhead : begins conversationHead "CONVERSATION_ID=$(echo \"$RESPONSE\" | " := by decide
  have hkeeping : exchange.has keepingLine :=
    Purpose.has_of_begins (by decide) (begins_append (begins_append hhead _) _)
  have hstatements : statementsOf captureConversation = [keepingLine] := rfl
  rw [Purpose.among, hstatements, List.filter_cons_of_pos hkeeping, List.filter_nil]

/-- A response between two ordinary statements. -/
theorem among_response {first response last : String} (hfirst : Ordinary first)
    (hlast : Ordinary last) (h : begins responseHead response) :
    exchange.among [.line first, .line response, .line last] = [response] := by
  have hresponse : exchange.has response := Purpose.has_of_begins List.mem_cons_self h
  rw [Purpose.among_line hfirst, ← List.singleton_append, Purpose.among_append,
    Purpose.among_line hlast, Purpose.among_nil, List.append_nil]
  simp [Purpose.among, hresponse]

theorem exchange_claudeStep (h : claudeStep call = .ok nodes) :
    claudeCode.Exchange call (exchange.among nodes) := by
  obtain ⟨system, hsystem, h⟩ := Attempt.of_bind_ok h
  obtain ⟨flags, _, h⟩ := Attempt.of_bind_ok h
  cases h
  have hresponse : begins responseHead ("RESPONSE=$(claude @" ++ call.agent.id.display ++ " " ++
      Text.join " " flags ++ " --print \"" ++ escape call.task ++ "\")") := by
    simp [begins, responseHead]
  refine ⟨_, hresponse, ?_⟩
  rw [Purpose.among_append, Purpose.among_append, Purpose.among_append,
    (consist_systemPrompt hsystem).among,
    among_response (by decide) (by decide) hresponse]
  cases call.continuation <;> cases call.chainStart <;>
    simp [among_resumeConversation, among_captureConversation]

/-- Other tools get a response only. -/
theorem exchange_of_response {backend : Backend} {response : String}
    (hother : backend ≠ .claudeCode) (h : begins responseHead response) :
    backend.Exchange call [response] :=
  ⟨response, h, by simp [hother]⟩

theorem exchange_copilotStep (h : copilotStep call = .ok nodes) :
    copilotCli.Exchange call (exchange.among nodes) := by
  obtain ⟨flags, _, h⟩ := Attempt.of_bind_ok h
  cases h
  rw [among_response (by decide) (by decide) (by simp [begins, responseHead])]
  exact exchange_of_response (by decide) (by simp [begins, responseHead])

theorem exchange_manualStep (tool : ManualTool) (call : Invocation) :
    (manual tool).Exchange call (exchange.among (manualStep tool call)) := by
  obtain ⟨first, hnodes, hfirst⟩ := exists_manualStep tool call
  have hresponse : exchange.among [.line "RESPONSE=\"\""] = ["RESPONSE=\"\""] := by decide
  rw [hnodes, Purpose.among_append, hfirst.among, hresponse]
  exact exchange_of_response nofun (by decide)

theorem exchange_step {backend : Backend} (h : backend.step call = .ok nodes) :
    backend.Exchange call (exchange.among nodes) := by
  cases backend with
  | claudeCode => exact exchange_claudeStep h
  | copilotCli => exact exchange_copilotStep h
  | manual tool =>
      cases h
      exact exchange_manualStep tool call

end Backend

/-! ## Steps -/

namespace Setting

variable {setting : Setting} {recipe : Recipe} {step : Step} {backend : Backend}
variable {agentOf : Step → Option Agent} {nodes : List Node}

theorem among_conditioned (step : Step) (body : List Node) :
    exchange.among (conditioned step body) = exchange.among body := by
  unfold conditioned
  split <;>
    simp +decide [String.append_assoc, Ordinary.append, Purpose.among_line, Purpose.among_choice,
      Purpose.among_comment]

theorem exchange_stepNodes {index number : Int} {agent : Agent}
    (h : setting.stepNodes recipe step index number backend agent = .ok nodes) :
    ∃ call, setting.invocation recipe step index number backend agent = .ok call ∧
      backend.Exchange call (exchange.among nodes) := by
  obtain ⟨invocation, call, title, hinvocation, hcall, -, rfl⟩ := of_stepNodes_ok h
  have hannounced : AllConsist Ordinary
      [.comment title, .line ("echo \"▶️  " ++ title ++ "\"")] := by
    simp +decide [String.append_assoc, Ordinary.append]
  have hclosing : AllConsist Ordinary [.line "echo \"\"", .blank] := by
    simp +decide
  refine ⟨invocation, hinvocation, ?_⟩
  rw [Purpose.among_append, Purpose.among_append, Purpose.among_append, among_conditioned,
    Purpose.among_append, Purpose.among_append, Purpose.among_append, hannounced.among,
    consist_confirmation.among, hclosing.among, consist_documentLoaders.among,
    (backend.consist_outputDocument invocation).among, consist_guardNodes.among]
  simpa using Backend.exchange_step hcall

/-- The steps of a group that have an agent, with their places. -/
def takenSteps (agentOf : Step → Option Agent) (entries : List (Step × Nat)) :
    List (Step × Nat) :=
  entries.filter fun entry => (agentOf entry.1).isSome

theorem takenSteps_cons_of_none {entry : Step × Nat} (h : agentOf entry.1 = none)
    (entries : List (Step × Nat)) :
    takenSteps agentOf (entry :: entries) = takenSteps agentOf entries :=
  List.filter_cons_of_neg (by simp [h])

theorem takenSteps_cons_of_some {entry : Step × Nat} {agent : Agent}
    (h : agentOf entry.1 = some agent) (entries : List (Step × Nat)) :
    takenSteps agentOf (entry :: entries) = entry :: takenSteps agentOf entries :=
  List.filter_cons_of_pos (by simp [h])

/-- The call of a step that has an agent. -/
def IsCall (setting : Setting) (recipe : Recipe) (backend : Backend)
    (agentOf : Step → Option Agent) (entry : Step × Nat) (call : Invocation) : Prop :=
  ∃ agent, agentOf entry.1 = some agent ∧
    setting.invocation recipe entry.1 entry.2 (stepNumber recipe entry.1) backend agent = .ok call

/-- Nodes make the calls of the steps that have an agent, one after the other. -/
def MakesCalls (setting : Setting) (recipe : Recipe) (backend : Backend)
    (agentOf : Step → Option Agent) (entries : List (Step × Nat)) (nodes : List Node) : Prop :=
  ∃ calls groups, List.Forall₂ (setting.IsCall recipe backend agentOf)
      (takenSteps agentOf entries) calls ∧
    List.Forall₂ backend.Exchange calls groups ∧ exchange.among nodes = groups.flatten

theorem makesCalls_of_emitsAll {entries : List (Step × Nat)}
    (h : setting.EmitsAll recipe backend agentOf entries nodes) :
    setting.MakesCalls recipe backend agentOf entries nodes := by
  induction h with
  | nil => exact ⟨[], [], .nil, .nil, rfl⟩
  | @cons entry entries nodes others hemits hrest ih =>
      obtain ⟨calls, groups, hcalls, hgroups, hexchanges⟩ := ih
      unfold Emits at hemits
      split at hemits
      · rename_i hnone
        obtain ⟨note, message, rfl⟩ := hemits
        refine ⟨calls, groups, ?_, hgroups, ?_⟩
        · rwa [takenSteps_cons_of_none hnone]
        · rw [Purpose.among_append, (consist_skipped note message).among, hexchanges,
            List.nil_append]
      · rename_i agent hagent
        obtain ⟨call, hinvocation, hexchange⟩ := exchange_stepNodes hemits
        refine ⟨call :: calls, exchange.among nodes :: groups, ?_, .cons hexchange hgroups, ?_⟩
        · rw [takenSteps_cons_of_some hagent]
          exact .cons ⟨agent, hagent, hinvocation⟩ hcalls
        · rw [Purpose.among_append, hexchanges, List.flatten_cons]

/-- The loop makes the calls of the steps in it; without a loop no step is in it. -/
theorem makesCalls_of_emitsLoop {steps : List Step} (hloop : recipe.loop = none → steps = [])
    (h : setting.EmitsLoop recipe backend agentOf steps nodes) :
    setting.MakesCalls recipe backend agentOf steps.zipIdx nodes := by
  cases h with
  | none hnone =>
      obtain rfl := hnone.elim hloop id
      exact ⟨[], [], .nil, .nil, rfl⟩
  | some hsome _ hbody =>
      obtain ⟨calls, groups, hcalls, hgroups, hexchanges⟩ := makesCalls_of_emitsAll hbody
      exact ⟨calls, groups, hcalls, hgroups, (among_loopNodes _ _ _ _).trans hexchanges⟩

/-! ## Groups of calls -/

/-- The call of a step where the steps go on with one conversation. -/
structure Joins (agentOf : Step → Option Agent) (entry : Step × Nat) (call : Invocation) :
    Prop where
  step : call.step = entry.1
  agent : agentOf entry.1 = some call.agent
  continuation : call.continuation ↔ 0 < entry.2 ∧ entry.1.continueConversation ≠ .bool false
  chainStart : call.chainStart = !call.continuation

theorem goesOn_iff {index : Int} (continued : recipe.conversation = .continued) :
    goesOn recipe step index ↔ 0 < index ∧ step.continueConversation ≠ .bool false := by
  unfold goesOn
  rw [continued]
  split
  · rename_i hrefuses
    simp [hrefuses]
  · rename_i hagrees
    simpa using fun _ => hagrees

theorem IsCall.joins {entry : Step × Nat} {call : Invocation}
    (continued : recipe.conversation = .continued)
    (h : setting.IsCall recipe backend agentOf entry call) : Joins agentOf entry call := by
  obtain ⟨agent, hagent, hinvocation⟩ := h
  obtain ⟨task, _, hinvocation⟩ := Attempt.of_bind_ok hinvocation
  cases hinvocation
  have hplace : goesOn recipe entry.1 entry.2 ↔
      0 < entry.2 ∧ entry.1.continueConversation ≠ .bool false := by
    rw [goesOn_iff continued, Int.natCast_pos]
  exact ⟨rfl, hagent, hplace, by simp [continued]⟩

/-- The calls of a group of steps, and what its nodes have of their conversation. -/
structure Converses (backend : Backend) (agentOf : Step → Option Agent) (steps : List Step)
    (nodes : List Node) (calls : List Invocation) : Prop where
  joins : List.Forall₂ (Joins agentOf) (takenSteps agentOf steps.zipIdx) calls
  exchanges : ∃ groups, List.Forall₂ backend.Exchange calls groups ∧
    exchange.among nodes = groups.flatten

/-- The first call starts the conversation. -/
def Anchored (calls : List Invocation) : Prop := ∀ call ∈ calls.head?, call.chainStart

/-- Each call that takes the conversation up comes behind one that starts it. -/
def Preceded (calls : List Invocation) : Prop :=
  ∀ ahead call behind, calls = ahead ++ call :: behind → call.continuation →
    ∃ start ∈ ahead, start.chainStart

theorem anchored_iff_preceded {calls : List Invocation}
    (h : ∀ call ∈ calls, call.chainStart = !call.continuation) :
    Anchored calls ↔ Preceded calls := by
  constructor
  · rintro hanchored ahead call behind rfl hcontinuation
    cases ahead with
    | nil =>
        have hstart := hanchored call rfl
        rw [h call (by simp), hcontinuation] at hstart
        cases hstart
    | cons start ahead => exact ⟨start, List.mem_cons_self, hanchored start rfl⟩
  · intro hpreceded call hcall
    obtain ⟨rest, rfl⟩ := List.head?_eq_some_iff.1 hcall
    rw [h call List.mem_cons_self]
    cases hcontinuation : call.continuation with
    | false => rfl
    | true =>
        obtain ⟨start, hstart, -⟩ := hpreceded [] call rest rfl hcontinuation
        cases hstart

theorem anchored_iff {entries : List (Step × Nat)} {calls : List Invocation}
    (h : List.Forall₂ (Joins agentOf) entries calls) :
    Anchored calls ↔
      ∀ entry ∈ entries.head?, entry.2 = 0 ∨ entry.1.continueConversation = .bool false := by
  cases h with
  | nil => simp [Anchored]
  | @cons entry call entries calls hjoins _ =>
      have hstart : call.chainStart ↔ ¬ call.continuation := by
        rw [hjoins.chainStart, Bool.not_eq_true', Bool.not_eq_true]
      simp only [Anchored, List.head?_cons, Option.mem_some_iff, forall_eq', hstart,
        hjoins.continuation]
      rw [not_and_or, not_not, Nat.pos_iff_ne_zero, not_not]

theorem MakesCalls.exists_converses {steps : List Step}
    (continued : recipe.conversation = .continued)
    (h : setting.MakesCalls recipe backend agentOf steps.zipIdx nodes) :
    ∃ calls, Converses backend agentOf steps nodes calls ∧
      (Anchored calls ↔ Preceded calls) ∧
      (Anchored calls ↔ ∀ entry ∈ (takenSteps agentOf steps.zipIdx).head?,
        entry.2 = 0 ∨ entry.1.continueConversation = .bool false) := by
  obtain ⟨calls, groups, hcalls, hgroups, hexchanges⟩ := h
  have hjoins := hcalls.imp fun _ _ => IsCall.joins continued
  refine ⟨calls, ⟨hjoins, groups, hgroups, hexchanges⟩, anchored_iff_preceded ?_,
    anchored_iff hjoins⟩
  intro call hcall
  obtain ⟨place, hplace, rfl⟩ := List.mem_iff_getElem.1 hcall
  exact (hjoins.get (hjoins.length_eq ▸ hplace) hplace).chainStart

/-! ## Scripts -/

theorem among_outline {outline : Outline} {time : String}
    (fits : outline.Fits setting recipe backend time agentOf) :
    exchange.among (outline.front setting recipe backend ++ outline.steps ++
        [setting.completion]) =
      exchange.among outline.before ++ exchange.among outline.loop ++
        exchange.among outline.behind := by
  rw [Purpose.among_append, Purpose.among_append, among_front fits.header, among_completion,
    Purpose.among_of_consist (List.subset_cons_self _ _) consist_declarations, Outline.steps,
    Purpose.among_append, Purpose.among_append, List.append_nil]
  rfl

/--
In each group of steps a call either starts the conversation or takes it up,
by the place of its step in the group and by what the step says, and only
one tool keeps the conversation, where it is started. The first call of a
group starts it, and each call that takes it up comes behind such a one,
exactly if the first step that has an agent is the first of the group or
refuses to continue.
-/
theorem converses_script (items : List (Value × Agent)) {run run' : Run} {log log' : Log}
    {tool : Value} {time : String} (continued : recipe.conversation = .continued)
    (h : exec (setting.script recipe tool time) (run, log) = (.ok nodes, run', log')) :
    ∃ backend agentOf, ∃ outline : Outline, setting.registry.getNamed tool = .ok backend ∧
      (run.agents.Serves items → ∀ step : Step, ∃ name : Value, name.same step.agent ∧
        agentOf step = (Shelf.find? items name).filter setting.letsIn) ∧
      nodes = outline.front setting recipe backend ++ outline.steps ++ [setting.completion] ∧
      outline.Fits setting recipe backend time agentOf ∧
      exchange.among nodes =
        exchange.among outline.before ++ exchange.among outline.loop ++ exchange.among outline.behind ∧
      ∀ group ∈ [(outline.partition.preLoop, outline.before),
          (outline.partition.loopBody, outline.loop),
          (outline.partition.postLoop, outline.behind)],
        ∃ calls, Converses backend agentOf group.1 group.2 calls ∧
          (Anchored calls ↔ Preceded calls) ∧
          (Anchored calls ↔ ∀ entry ∈ (takenSteps agentOf group.1.zipIdx).head?,
            entry.2 = 0 ∨ entry.1.continueConversation = .bool false) := by
  obtain ⟨backend, outline, hbackend, hnodes, hcast⟩ := cast_of_script items h
  have fits := hcast.holds _ List.prefix_rfl
  obtain ⟨reports, hpartition⟩ := fits.partition
  have hnone (hloop : recipe.loop = none) : outline.partition.loopBody = [] := by
    by_contra hsome
    obtain ⟨loop, hmem, -⟩ := (Partition.loopBody_ne_nil_iff hpartition).1 hsome
    rw [hloop] at hmem
    cases hmem
  refine ⟨backend, setting.castFrom items run'.agents.cache, outline, hbackend,
    fun serves => exists_castFrom _ (hcast.serves serves).cache, hnodes, fits,
    hnodes ▸ among_outline fits, ?_⟩
  simp only [List.forall_mem_cons]
  exact ⟨(makesCalls_of_emitsAll fits.before).exists_converses continued,
    (makesCalls_of_emitsLoop hnone fits.loop).exists_converses continued,
    (makesCalls_of_emitsAll fits.behind).exists_converses continued, nofun⟩

/-- A recipe in one conversation whose first step is left out. -/
def leftOutRecipe : Recipe := { retryRecipe with conversation := .continued, loop := none }

theorem exists_script_left_out :
    ∃ nodes s', exec (retrySetting.script leftOutRecipe (.text "claude-code") "today")
      (retryRun, []) = (.ok nodes, s') :=
  exists_exec_of_isOk (by decide +kernel)

theorem serves_retryRun : retryRun.agents.Serves retryAgents := ⟨rfl, nofun⟩

theorem converses_script_left_out :
    leftOutRecipe.conversation = .continued ∧ retryRun.agents.Serves retryAgents ∧
      ∃ nodes run' log', exec (retrySetting.script leftOutRecipe (.text "claude-code") "today")
          (retryRun, []) = (.ok nodes, run', log') ∧
        ∃ backend agentOf, ∃ outline : Outline,
          retrySetting.registry.getNamed (.text "claude-code") = .ok backend ∧
          (∀ step : Step, ∃ name : Value, name.same step.agent ∧
            agentOf step = (Shelf.find? retryAgents name).filter retrySetting.letsIn) ∧
          exchange.among nodes =
            exchange.among outline.before ++ exchange.among outline.loop ++
              exchange.among outline.behind ∧
          ∃ calls, Converses backend agentOf outline.partition.preLoop outline.before calls ∧
            (Anchored calls ↔ Preceded calls) := by
  obtain ⟨nodes, ⟨run', log'⟩, hscript⟩ := exists_script_left_out
  obtain ⟨backend, agentOf, outline, hbackend, hagents, -, -, hexchanges, hgroups⟩ :=
    converses_script retryAgents rfl hscript
  obtain ⟨calls, hconverses, hanchored, -⟩ := hgroups _ List.mem_cons_self
  exact ⟨rfl, serves_retryRun, nodes, run', log', hscript, backend, agentOf, outline, hbackend,
    hagents serves_retryRun, hexchanges, calls, hconverses, hanchored⟩

/-- An agent is that of the collection under the id that a step gives as a text. -/
theorem castFrom_text {items : List (Value × Agent)} {cache : AgentCache} {name : String}
    (known : ∀ entry ∈ cache, entry.2 = Shelf.find? items entry.1)
    (h : step.agent = .text name) :
    setting.castFrom items cache step =
      (Shelf.find? items (.text name)).filter setting.letsIn := by
  obtain ⟨other, hsame, hagent⟩ := setting.exists_castFrom cache known step
  rw [h] at hsame
  rw [hagent, Value.eq_of_same_text hsame]

/-- The first call takes a conversation up, as its step has a place behind the one left out. -/
theorem exists_not_anchored_left_out :
    ∃ nodes s', exec (retrySetting.script leftOutRecipe (.text "claude-code") "today")
        (retryRun, []) = (.ok nodes, s') ∧
      ∃ backend agentOf, ∃ outline : Outline,
        retrySetting.registry.getNamed (.text "claude-code") = .ok backend ∧
        nodes = outline.front retrySetting leftOutRecipe backend ++ outline.steps ++
          [retrySetting.completion] ∧
        outline.Fits retrySetting leftOutRecipe backend "today" agentOf ∧
        ∃ calls, Converses backend agentOf outline.partition.preLoop outline.before calls ∧
          ¬ Anchored calls ∧ ¬ Preceded calls := by
  obtain ⟨nodes, ⟨run', log'⟩, hscript⟩ := exists_script_left_out
  obtain ⟨backend, outline, hbackend, hnodes, hcast⟩ := cast_of_script retryAgents hscript
  have known := (hcast.serves serves_retryRun).cache
  have fits := hcast.holds _ List.prefix_rfl
  obtain ⟨calls, hconverses, hpreceded, hanchored⟩ :=
    (makesCalls_of_emitsAll fits.before).exists_converses rfl
  have hnot : ¬ Anchored calls := by
    obtain ⟨reports, hpartition⟩ := fits.partition
    obtain ⟨plan, fix, ship, hsteps, hplan, hfix, hagrees⟩ : ∃ plan fix ship,
        leftOutRecipe.steps = [plan, fix, ship] ∧ plan.agent = .text "nobody" ∧
          fix.agent = .text "coder" ∧ fix.continueConversation ≠ .bool false :=
      ⟨_, _, _, rfl, rfl, rfl, nofun⟩
    have hgroup : outline.partition.preLoop = [plan, fix, ship] := by
      rw [← hsteps, ← (Prod.mk.inj (Except.ok.inj hpartition)).1]
      rfl
    have hnobody : retrySetting.castFrom retryAgents run'.agents.cache plan = none := by
      rw [castFrom_text known hplan]
      simp [Shelf.find?, retryAgents, Value.same, Value.samePlain]
    obtain ⟨coder, hcoder⟩ :
        ∃ agent, retrySetting.castFrom retryAgents run'.agents.cache fix = some agent := by
      rw [castFrom_text known hfix]
      simp [Shelf.find?, retryAgents, letsIn, retrySetting, Admissions.listsOf, Admission.lets]
    rw [hanchored, hgroup, List.zipIdx_cons, List.zipIdx_cons, takenSteps_cons_of_none hnobody,
      takenSteps_cons_of_some hcoder]
    intro hfirst
    rcases hfirst _ rfl with hplace | hrefuses
    · cases hplace
    · exact hagrees hrefuses
  exact ⟨nodes, _, hscript, backend, _, outline, hbackend, hnodes, fits, calls, hconverses,
    hnot, hpreceded.not.1 hnot⟩

end Setting

end Playbook
