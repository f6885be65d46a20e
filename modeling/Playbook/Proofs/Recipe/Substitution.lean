import Playbook.Proofs.Recipe.Statements
import Playbook.Proofs.Recipe.Variables

/-!
# Tasks with variables

The task of a step has a reference for each placeholder of a declared key, and
every key that is referred to has one declaration in front of the steps.
-/

namespace Playbook.Setting

open Work Shell Shell.Node Template

variable {setting : Setting} {recipe : Recipe} {step : Step} {backend : Backend}

/-! ## Tasks -/

/-- What a task has behind its own text: its documents, and where its response is kept. -/
def addition (step : Step) : String :=
  (if step.includeDocuments.isEmpty then ""
    else "\n" ++ Text.join "\n" (documentSection step.includeDocuments)) ++
  (step.outputDocument.map saveInstruction).getD ""

theorem taskText_of_text {task : String} (h : step.task = .text task) :
    setting.taskText recipe step =
      .ok (substitute task ((setting.variableDefaults recipe).map (·.1)) ++ addition step) := by
  have hjoin (text : String) : Text.join "\n" (text :: documentSection step.includeDocuments) =
      text ++ ("\n" ++ Text.join "\n" (documentSection step.includeDocuments)) := by
    rw [documentSection, Text.join, List.cons_append, List.cons_append,
      String.intercalate_cons_cons, String.append_assoc]
    rfl
  rw [taskText, h, addition]
  by_cases hdocuments : step.includeDocuments.isEmpty <;>
    cases step.outputDocument <;> simp [hdocuments, hjoin, String.append_assoc]

/-- A call has the task of its step, with references for the placeholders of declared keys. -/
theorem exists_task_of_invocation {index number : Int} {agent : Agent} {call : Invocation}
    (h : setting.invocation recipe step index number backend agent = .ok call) :
    ∃ task, step.task = .text task ∧
      call.task =
        substitute task ((setting.variableDefaults recipe).map (·.1)) ++ addition step := by
  obtain ⟨text, htext, h⟩ := Attempt.of_bind_ok h
  cases h
  cases htask : step.task with
  | text task =>
      rw [taskText_of_text htask] at htext
      cases htext
      exact ⟨task, rfl, rfl⟩
  | _ =>
      rw [taskText, htask] at htext
      cases htext

/-! ## Declarations -/

theorem statementsOf_map_declaration (context table : List (String × String)) :
    ∀ text ∈ statementsOf (table.map (declaration context)), Purpose.declaration.has text := by
  induction table with
  | nil => simp
  | cons entry table ih =>
      have hhead : begins declarationHead (": $\x7b" ++ variableName entry.1 ++ ":=\"") :=
        begins_append (begins_append (by decide) _) _
      rw [List.map_cons, statementsOf_cons, declaration, statements_line, List.singleton_append,
        List.forall_mem_cons]
      refine ⟨Purpose.has_of_begins List.mem_cons_self ?_, ih⟩
      exact begins_append (begins_append (begins_append hhead _) _) _

/-- The declarations have one statement for each entry of the table, in its order. -/
theorem among_declarations :
    Purpose.declaration.among (setting.declarations recipe) =
      statementsOf ((setting.variableDefaults recipe).map (declaration setting.context)) := by
  have hblank : Purpose.declaration.among [.blank] = [] := Purpose.among_of_ordinary (by simp)
  unfold declarations
  dsimp only
  split
  · rename_i hempty
    rw [List.isEmpty_iff.1 hempty]
    simp
  · rw [List.append_assoc, List.singleton_append, Purpose.among_comment, Purpose.among_append,
      hblank, List.append_nil, Purpose.among, List.filter_eq_self]
    exact statementsOf_map_declaration _ _

theorem among_of_emitsLoop {agentOf : Step → Option Agent} {steps : List Step} {nodes : List Node}
    (h : setting.EmitsLoop recipe backend agentOf steps nodes) :
    Purpose.declaration.among nodes = [] := by
  cases h with
  | none => exact Purpose.among_nil _
  | some _ _ hbody =>
      rw [among_loopNodes, Purpose.among_of_consist (by decide) (consist_of_emitsAll hbody)]

/-- The steps declare nothing. -/
theorem among_steps {outline : Outline} {time : String} {agentOf : Step → Option Agent}
    (fits : outline.Fits setting recipe backend time agentOf) :
    Purpose.declaration.among outline.steps = [] := by
  rw [Outline.steps, Purpose.among_append, Purpose.among_append,
    Purpose.among_of_consist (by decide) (consist_of_emitsAll fits.before),
    among_of_emitsLoop fits.loop,
    Purpose.among_of_consist (by decide) (consist_of_emitsAll fits.behind)]
  rfl

private theorem filter_key_eq {entries : List (String × String)} {entry : String × String}
    (h : (entries.map (·.1)).Nodup) (hentry : entry ∈ entries) :
    (entries.filter fun other => other.1 = entry.1) = [entry] := by
  induction entries with
  | nil => cases hentry
  | cons other entries ih =>
      obtain ⟨hother, hrest⟩ := List.nodup_cons.1 h
      rcases List.mem_cons.1 hentry with rfl | hmem
      · rw [List.filter_cons_of_pos (by simp), List.filter_eq_nil_iff.2]
        intro later hlater hkey
        exact hother (List.mem_map.2 ⟨later, hlater, by simpa using hkey⟩)
      · have hkey : other.1 ≠ entry.1 :=
          fun hkey => hother (List.mem_map.2 ⟨entry, hmem, hkey.symm⟩)
        rw [List.filter_cons_of_neg (by simpa using hkey), ih hrest hmem]

theorem declaredReference_of_mem {keys : List String} {key : String} (h : key ∈ keys)
    (source : List Char) : declaredReference keys (.placeholder key.toList source) =
      some ("$\x7b" ++ variableName key ++ "\x7d").toList := by
  rw [declaredReference, Segment.name?, Option.bind_some, String.ofList_toList,
    if_pos (List.contains_iff_mem.2 h)]
  simp [variableName, reference]

/-- What a placeholder of a declared key becomes, and the one entry of its key. -/
theorem exists_entry {segment : Segment}
    (h : isDeclared ((setting.variableDefaults recipe).map (·.1)) segment) :
    ∃ key value, segment.name? = some key.toList ∧
      declaredReference ((setting.variableDefaults recipe).map (·.1)) segment =
        some ("$\x7b" ++ variableName key ++ "\x7d").toList ∧
      setting.ownDefault recipe key = some value ∧
      ((setting.variableDefaults recipe).filter fun entry => entry.1 = key) = [(key, value)] := by
  obtain ⟨name, source, rfl, hname⟩ := exists_of_isDeclared h
  obtain ⟨key, rfl⟩ : ∃ key : String, key.toList = name :=
    ⟨String.ofList name, String.toList_ofList⟩
  rw [String.ofList_toList] at hname
  obtain ⟨⟨_, value⟩, hentry, rfl⟩ := List.mem_map.1 hname
  exact ⟨_, value, rfl, declaredReference_of_mem hname source, mem_variableDefaults.1 hentry,
    filter_key_eq (nodup_variableDefaults setting recipe) hentry⟩

/--
In a task the placeholders of declared keys become references and everything
else stays, so what is left of placeholders is not declared and doing it again
changes nothing. The calls have their tasks in this form. In a script the
statements that declare a variable stand in front of the steps, one for each
key, and the key of each placeholder that is replaced is one of them, with its
value in the context if there is one and else with that in the recipe.
-/
theorem substitution_closed (setting : Setting) (recipe : Recipe) :
    let keys := (setting.variableDefaults recipe).map (·.1)
    (∀ task : String,
      (substitute task keys).toList =
        (segments task.toList).flatMap (·.swapped (declaredReference keys)) ∧
      occurrences (substitute task keys) =
        (occurrences task).filter (fun segment => !isDeclared keys segment) ∧
      substitute (substitute task keys) keys = substitute task keys) ∧
    (∀ (step : Step) (index number : Int) (backend : Backend) (agent : Agent) (call : Invocation),
      setting.invocation recipe step index number backend agent = .ok call →
      ∃ task, step.task = .text task ∧ call.task = substitute task keys ++ addition step) ∧
    (∀ (tool : Value) (time : String) (s s' : Run × Log) (nodes : List Node),
      exec (setting.script recipe tool time) s = (.ok nodes, s') →
      ∃ backend agentOf, ∃ outline : Outline,
        nodes = outline.front setting recipe backend ++ outline.steps ++ [setting.completion] ∧
        outline.Fits setting recipe backend time agentOf ∧
        Purpose.declaration.among (outline.front setting recipe backend) =
          statementsOf ((setting.variableDefaults recipe).map (declaration setting.context)) ∧
        Purpose.declaration.among (outline.steps ++ [setting.completion]) = []) ∧
    ∀ segment, isDeclared keys segment →
      ∃ key value, segment.name? = some key.toList ∧
        declaredReference keys segment = some ("$\x7b" ++ variableName key ++ "\x7d").toList ∧
        setting.ownDefault recipe key = some value ∧
        ((setting.variableDefaults recipe).filter fun entry => entry.1 = key) =
          [(key, value)] := by
  intro keys
  refine ⟨fun task => ⟨?_, occurrences_substitute task keys, substitute_substitute task keys⟩,
    fun _ _ _ _ _ _ => exists_task_of_invocation, ?_, fun _ => exists_entry⟩
  · rw [substitute, replace_eq_swapped, String.toList_ofList]
    rfl
  · intro tool time s s' nodes h
    obtain ⟨backend, agentOf, outline, -, hnodes, fits⟩ := exists_outline h
    refine ⟨backend, agentOf, outline, hnodes, fits, ?_, ?_⟩
    · rw [among_front fits.header, among_declarations]
    · rw [Purpose.among_append, among_steps fits, among_completion, List.append_nil]

/-- A recipe with a variable that its task has a placeholder for. -/
def greetingRecipe : Recipe :=
  { withDefaults [("name", "Ann")] with
    steps := [{ (default : Step) with
      id := .text "greet", agent := .text "coder",
      task := .text "Greet \x7b\x7bname\x7d\x7d for \x7b\x7bother\x7d\x7d." }] }

theorem exists_declaration_greeting :
    ∃ nodes s', exec (bareSetting.script greetingRecipe (.text "cursor") "today") (retryRun, []) =
        (.ok nodes, s') ∧
      ∃ front behind, nodes = front ++ behind ∧
        Purpose.declaration.among front = [": $\x7bNAME:=\"Ann\"\x7d"] ∧
        Purpose.declaration.among behind = [] := by
  obtain ⟨nodes, s', hscript⟩ : ∃ nodes s',
      exec (bareSetting.script greetingRecipe (.text "cursor") "today") (retryRun, []) =
        (.ok nodes, s') :=
    exists_exec_of_isOk (by decide +kernel)
  have hdeclared : statementsOf ((bareSetting.variableDefaults greetingRecipe).map
      (declaration bareSetting.context)) = [": $\x7bNAME:=\"Ann\"\x7d"] := by
    decide +kernel
  obtain ⟨-, -, hscripts, -⟩ := substitution_closed bareSetting greetingRecipe
  obtain ⟨backend, agentOf, outline, hnodes, -, hfront, hbehind⟩ := hscripts _ _ _ _ _ hscript
  rw [List.append_assoc] at hnodes
  exact ⟨nodes, s', hscript, _, _, hnodes, hfront.trans hdeclared, hbehind⟩

end Playbook.Setting
