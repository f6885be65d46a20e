import Playbook.Proofs.Recipe.Substitution
import Playbook.Proofs.Shell.Documents

/-!
# Documents that are handed over

A step loads its documents into variables, shows them in its task by these
variables, and keeps its response in a document that a later step can load.
Loading and keeping agree on where a document is.
-/

namespace Playbook

open Shell Shell.Node Work Template

/-! ## Loaders in nodes -/

namespace Shell

/-- What stands between a start and an end that a text has to have. -/
def between? (front back text : String) : Option String := do
  let rest ← after? front.toList text.toList
  let middle ← after? back.toList.reverse rest.reverse
  return String.ofList middle.reverse

theorem between?_eq_some_iff {front back text middle : String} :
    between? front back text = some middle ↔ text = front ++ middle ++ back := by
  simp only [between?, Option.bind_eq_bind, Option.bind_eq_some_iff, after?_eq_some_iff,
    Option.pure_def, Option.some.injEq, ← String.toList_inj, String.toList_append]
  constructor
  · rintro ⟨rest, htext, more, hrest, hmiddle⟩
    rw [String.toList_ofList] at hmiddle
    rw [htext, ← hmiddle, List.append_assoc, ← List.reverse_inj, List.reverse_append,
      List.reverse_append, List.reverse_append, hrest, List.reverse_reverse]
  · intro htext
    refine ⟨middle.toList ++ back.toList, by rw [htext, List.append_assoc], middle.toList.reverse,
      by rw [List.reverse_append], by rw [List.reverse_reverse, String.toList_ofList]⟩

theorem between?_eq_none {front text : String} (h : begins front text = false) (back : String) :
    between? front back text = none := by
  rw [Option.eq_none_iff_forall_ne_some]
  intro middle hmiddle
  obtain rfl := between?_eq_some_iff.1 hmiddle
  rw [begins_append (begins_append (by simp [begins]) _) _] at h
  cases h

/-- A conditional that puts a file into a variable, and a text where there is no file. -/
structure Loader where
  name : String
  file : String
  missing : String
deriving DecidableEq

def Loader.node (loader : Loader) : Node :=
  .choice ("if [ -f \"" ++ loader.file ++ "\" ]; then")
    [.line (loader.name ++ "=$(cat \"" ++ loader.file ++ "\")")]
    [.line (loader.name ++ "=\"" ++ loader.missing ++ "\"")]

def loader? (opener : String) (body other : List Node) : Option Loader :=
  match body, other with
  | [.line taken], [.line instead] => do
      let file ← between? "if [ -f \"" "\" ]; then" opener
      let name ← between? "" ("=$(cat \"" ++ file ++ "\")") taken
      let missing ← between? (name ++ "=\"") "\"" instead
      return ⟨name, file, missing⟩
  | _, _ => none

theorem loader?_eq_some_iff {opener : String} {body other : List Node} {loader : Loader} :
    loader? opener body other = some loader ↔ loader.node = .choice opener body other := by
  constructor
  · intro h
    unfold loader? at h
    split at h
    · simp only [Option.bind_eq_bind, Option.bind_eq_some_iff, between?_eq_some_iff] at h
      obtain ⟨file, rfl, name, rfl, missing, rfl, h⟩ := h
      cases h
      simp only [Loader.node, String.empty_append, String.append_assoc]
    · cases h
  · intro h
    cases h
    have hname : between? "" ("=$(cat \"" ++ loader.file ++ "\")")
        (loader.name ++ "=$(cat \"" ++ loader.file ++ "\")") = some loader.name := by
      rw [between?_eq_some_iff, String.empty_append, String.append_assoc, String.append_assoc,
        String.append_assoc]
    have hfile := between?_eq_some_iff.2 (rfl : "if [ -f \"" ++ loader.file ++ "\" ]; then" = _)
    have hmissing := between?_eq_some_iff.2
      (rfl : loader.name ++ "=\"" ++ loader.missing ++ "\"" = _)
    simp only [loader?, hfile, hname, hmissing, Option.bind_eq_bind, Option.bind_some]
    rfl

theorem loader?_of_opener {opener : String} (h : begins "if [ -f \"" opener = false)
    (body other : List Node) : loader? opener body other = none := by
  rw [Option.eq_none_iff_forall_ne_some]
  intro loader hloader
  have hnode := loader?_eq_some_iff.1 hloader
  cases hnode
  rw [begins_append (begins_append (by decide) _) _] at h
  cases h

/-- A file is not loaded where a message is written. -/
theorem loader?_of_message {text : String} (h : ends "\"" text) (opener : String)
    (other : List Node) : loader? opener [.line text] other = none := by
  rw [Option.eq_none_iff_forall_ne_some]
  intro loader hloader
  have hnode := loader?_eq_some_iff.1 hloader
  cases hnode
  obtain ⟨start, hstart⟩ := of_decide_eq_true h
  have hend := congrArg (fun chars => chars.reverse.head?) hstart
  simp at hend

namespace Node

mutual

/-- The loaders in a node, in their order. -/
def loaders : Node → List Loader
  | .line _ | .comment _ | .blank | .foreign _ => []
  | .block _ body none _ => loadersOf body
  | .block opener body (some other) _ =>
      match loader? opener body other with
      | some loader => [loader]
      | none => loadersOf body ++ loadersOf other

def loadersOf : List Node → List Loader
  | [] => []
  | node :: nodes => loaders node ++ loadersOf nodes

end

@[simp] theorem loadersOf_nil : loadersOf [] = [] := by
  rw [loadersOf]

@[simp] theorem loadersOf_cons (node : Node) (nodes : List Node) :
    loadersOf (node :: nodes) = loaders node ++ loadersOf nodes := by
  rw [loadersOf]

@[simp] theorem loadersOf_append (nodes others : List Node) :
    loadersOf (nodes ++ others) = loadersOf nodes ++ loadersOf others := by
  induction nodes with
  | nil => simp
  | cons node nodes ih => simp [ih]

@[simp] theorem loaders_line (text : String) : loaders (.line text) = [] := by
  rw [loaders]

@[simp] theorem loaders_comment (text : String) : loaders (.comment text) = [] := by
  rw [loaders]

@[simp] theorem loaders_blank : loaders .blank = [] := by
  rw [loaders]

@[simp] theorem loaders_when (opener : String) (body : List Node) :
    loaders (.when opener body) = loadersOf body := by
  rw [when, loaders]

theorem loaders_choice {opener : String} {body other : List Node}
    (h : loader? opener body other = none) :
    loaders (.choice opener body other) = loadersOf body ++ loadersOf other := by
  rw [choice, loaders, h]

@[simp] theorem loaders_loader (loader : Loader) : loaders loader.node = [loader] := by
  rw [Loader.node, choice, loaders, loader?_eq_some_iff.2 rfl]

end Node

end Shell

namespace Backend

variable {call : Invocation} {nodes : List Node}

theorem loadersOf_systemPrompt (h : systemPrompt call = .ok nodes) : loadersOf nodes = [] := by
  unfold systemPrompt at h
  dsimp only at h
  split at h
  · obtain ⟨trimmed, -, h⟩ := Attempt.of_bind_ok h
    obtain ⟨text, -, h⟩ := Attempt.of_bind_ok h
    cases h
    simp [systemPromptLine]
  · cases h
    simp [systemPromptLine]

theorem loadersOf_comments (texts : List α) (text : α → String) :
    loadersOf (texts.map fun a => .comment (text a)) = [] := by
  induction texts with
  | nil => simp
  | cons a texts ih => simp [ih]

/-- The call of a tool loads no documents. -/
theorem loadersOf_step {backend : Backend} (h : backend.step call = .ok nodes) :
    loadersOf nodes = [] := by
  cases backend with
  | claudeCode =>
      obtain ⟨system, hsystem, h⟩ := Attempt.of_bind_ok h
      obtain ⟨flags, -, h⟩ := Attempt.of_bind_ok h
      cases h
      cases call.continuation <;> cases call.chainStart <;>
        simp [loadersOf_systemPrompt hsystem, resumeConversation, captureConversation]
  | copilotCli =>
      obtain ⟨flags, -, h⟩ := Attempt.of_bind_ok h
      cases h
      simp
  | manual tool =>
      cases h
      have hdocuments : loadersOf (if call.documents.isEmpty then []
          else .comment "Attach documents:" :: call.documents.map fun path =>
            .comment ("  - " ++ documentPath call.docsDir path)) = [] := by
        split <;> simp [loadersOf_comments]
      simp only [manualStep, loadersOf_append, hdocuments]
      cases call.model with
      | none => simp
      | some model => cases hmodel : model.isEmpty <;> simp [hmodel]

theorem loadersOf_outputDocument (backend : Backend) (call : Invocation) :
    loadersOf (backend.outputDocument call) = [] := by
  unfold outputDocument
  cases call.step.outputDocument with
  | none => simp
  | some path => cases backend.isManual <;> simp

/-! ## Where a response is kept -/

/-- How the statements begin and end that keep a response, test for it or tell where it is. -/
def keepingMarks : List (String × String) :=
  [("echo \"$RESPONSE\" > \"", "\""),
   ("echo \"📄 Save the response manually to: ", "\""),
   ("if [ ! -f \"", "\" ]; then"),
   ("echo \"⚠️  Document not saved yet: ", "\"")]

def target? (statement : String) : Option String :=
  keepingMarks.findSome? fun mark => between? mark.1 mark.2 statement

/-- The files in which a response is kept. -/
def targets (nodes : List Node) : List String := (statementsOf nodes).filterMap target?

theorem target?_of_mark (i : Nat) {mark : String × String} (h : keepingMarks[i]? = some mark)
    (havoids : Avoids ((keepingMarks.take i).map (·.1)) mark.1) (file : String) :
    target? (mark.1 ++ file ++ mark.2) = some file := by
  obtain ⟨hi, hmark⟩ := List.getElem?_eq_some_iff.1 h
  have hmarks : keepingMarks = keepingMarks.take i ++ mark :: keepingMarks.drop (i + 1) := by
    rw [← hmark, List.getElem_cons_drop, List.take_append_drop]
  rw [target?, hmarks, List.findSome?_append, List.findSome?_eq_none_iff.2, List.findSome?_cons,
    between?_eq_some_iff.2 rfl]
  · rfl
  · intro other hother
    exact between?_eq_none
      (((havoids.append file).append mark.2) _ (List.mem_map_of_mem hother)).2 _

theorem target?_eq_none {text : String} (h : Avoids (keepingMarks.map (·.1)) text) :
    target? text = none :=
  List.findSome?_eq_none_iff.2 fun _ hmark =>
    between?_eq_none (h _ (List.mem_map_of_mem hmark)).2 _

theorem targets_outputDocument (backend : Backend) {path : String}
    (h : call.step.outputDocument = some path) :
    targets (backend.outputDocument call) ≠ [] ∧
      ∀ target ∈ targets (backend.outputDocument call),
        target = documentPath call.docsDir path := by
  have hkept := target?_of_mark 0 rfl (by decide) (documentPath call.docsDir path)
  have hsaved := target?_of_mark 1 rfl (by decide) (documentPath call.docsDir path)
  have htest := target?_of_mark 2 rfl (by decide) (documentPath call.docsDir path)
  have hmissing := target?_of_mark 3 rfl (by decide) (documentPath call.docsDir path)
  have hmessage : target? ("echo \"✓ Document saved: " ++ escape path ++ "\"") = none :=
    target?_eq_none ((Avoids.append (by decide) _).append _)
  unfold outputDocument
  rw [h]
  dsimp only
  cases backend.isManual with
  | true => simp [targets, hsaved, htest, hmissing]
  | false => simp [targets, hkept, hmessage]

end Backend

namespace Setting

variable {setting : Setting} {recipe : Recipe} {step : Step} {backend : Backend}

/-- The loader of a document, by its path and its variable. -/
def loader (setting : Setting) (entry : String × String) : Loader :=
  ⟨entry.2, documentPath setting.docsDir entry.1,
    "[Document not found: " ++ escape entry.1 ++ "]"⟩

theorem loadersOf_documentLoaders :
    loadersOf (setting.documentLoaders step) =
      (step.includeDocuments.zip (documentVariables step.includeDocuments)).map setting.loader := by
  have hnodes (entries : List (String × String)) :
      loadersOf (entries.map fun entry => (setting.loader entry).node) =
        entries.map setting.loader := by
    induction entries with
    | nil => simp
    | cons entry entries ih => simp [ih]
  have hloader (entry : String × String) : (setting.loader entry).node =
      .choice ("if [ -f \"" ++ documentPath setting.docsDir entry.1 ++ "\" ]; then")
        [.line (entry.2 ++ "=$(cat \"" ++ documentPath setting.docsDir entry.1 ++ "\")")]
        [.line (entry.2 ++ "=\"[Document not found: " ++ escape entry.1 ++ "]\"")] := by
    have htext : entry.2 ++ "=\"" ++ (setting.loader entry).missing ++ "\"" =
        entry.2 ++ "=\"[Document not found: " ++ escape entry.1 ++ "]\"" := by
      rw [← String.toList_inj]
      simp [loader]
    rw [Loader.node, ← htext]
    rfl
  unfold documentLoaders
  split
  · case isTrue hempty => simp [List.isEmpty_iff.1 hempty]
  · rw [loadersOf_cons, loaders_comment, List.nil_append, ← hnodes]
    simp only [hloader]

theorem loadersOf_guardNodes : loadersOf (guardNodes step) = [] := by
  unfold guardNodes
  split
  · simp
  · unfold checkNodes
    split <;> simp [refusal]
  · simp

theorem loadersOf_conditioned (body : List Node) :
    loadersOf (conditioned step body) = loadersOf body := by
  unfold conditioned
  dsimp only
  split
  · rw [loadersOf_cons, loaders_choice (loader?_of_message (ends_append (by decide) _) _ _)]
    simp
  · rw [loadersOf_cons, loadersOf_cons, loaders_choice (loader?_of_opener (by decide) _ _)]
    simp
  · simp
  · rfl

/-- The loaders of a step that is carried out are those of its documents, in their order. -/
theorem loadersOf_stepNodes {index number : Int} {agent : Agent} {nodes : List Node}
    (h : setting.stepNodes recipe step index number backend agent = .ok nodes) :
    loadersOf nodes =
      (step.includeDocuments.zip (documentVariables step.includeDocuments)).map setting.loader := by
  obtain ⟨call, body, title, -, hbody, -, rfl⟩ := of_stepNodes_ok h
  have hconfirmed : loadersOf (if step.waitForConfirmation then confirmation else []) = [] := by
    split <;> simp [confirmation]
  simp only [loadersOf_append, loadersOf_conditioned, loadersOf_documentLoaders,
    Backend.loadersOf_step hbody, Backend.loadersOf_outputDocument, loadersOf_guardNodes,
    hconfirmed]
  simp

/-! ## References in tasks -/

/-- The lines of a task for a document: a heading with its path, and its variable below. -/
def shownDocument (entry : String × String) : List String :=
  ["### Document: \x60" ++ entry.1 ++ "\x60", "", "$\x7b" ++ entry.2 ++ "\x7d", ""]

theorem references_join (lines : List String) :
    references (Text.join "\n" lines).toList =
      lines.flatMap fun line => references line.toList := by
  induction lines with
  | nil => rfl
  | cons line lines ih =>
      cases lines with
      | nil => simp [Text.join]
      | cons other lines =>
          have hend : "\n".toList = ['\n'] := rfl
          rw [Text.join, String.intercalate_cons_cons, ← Text.join, String.toList_append,
            String.toList_append, List.append_assoc, hend, List.singleton_append,
            references_append (by decide) (by decide), ← List.singleton_append,
            references_append_of_not_mem (by decide), ih]
          simp only [List.flatMap_cons]

theorem references_heading (path : String) :
    references ("### Document: \x60" ++ path ++ "\x60").toList = references path.toList := by
  have htick : "\x60".toList = ['\x60'] := rfl
  have hnone : references ['\x60'] = [] := rfl
  rw [String.toList_append, String.toList_append, List.append_assoc,
    references_append_of_not_mem (by decide), htick, references_append (by decide) (by decide),
    hnone, List.append_nil]

theorem references_variable {paths : List String} {name : String}
    (h : name ∈ documentVariables paths) :
    references ("$\x7b" ++ name ++ "\x7d").toList = [name.toList] := by
  obtain ⟨rest, rfl, hrest⟩ := exists_of_mem_documentVariables h
  have hname : ∀ c ∈ ("DOC_CONTENT_" ++ rest).toList, isVariableChar c := by
    rw [String.toList_append, List.forall_mem_append]
    exact ⟨List.all_eq_true.1 (by decide), hrest⟩
  have htext : ("$\x7b" ++ ("DOC_CONTENT_" ++ rest) ++ "\x7d").toList =
      reference ("DOC_CONTENT_" ++ rest).toList ++ [] := by
    simp [reference]
  rw [htext, references_reference hname, references]

/-- The references of a section are those in the paths and those to the variables. -/
theorem references_documentSection (paths : List String) :
    references (Text.join "\n" (documentSection paths)).toList =
      (paths.zip (documentVariables paths)).flatMap fun entry =>
        references entry.1.toList ++ [entry.2.toList] := by
  have hshown : ∀ entry ∈ paths.zip (documentVariables paths),
      (shownDocument entry).flatMap (fun line => references line.toList) =
        references entry.1.toList ++ [entry.2.toList] := by
    intro entry hentry
    have hempty : references "".toList = [] := rfl
    simp only [shownDocument, List.flatMap_cons, List.flatMap_nil, references_heading,
      references_variable (List.of_mem_zip hentry).2, hempty, List.nil_append, List.append_nil]
  have hhead : ["", "## Reference Documents (Context)", ""].flatMap
      (fun line => references line.toList) = [] := by
    decide +kernel
  have hclosing : ["**Please use the documents above as context for your work.**"].flatMap
      (fun line => references line.toList) = [] := by
    decide +kernel
  rw [references_join, documentSection, List.flatMap_append, List.flatMap_append, hhead, hclosing,
    List.nil_append, List.append_nil, List.flatMap_assoc]
  exact List.flatMap_congr hshown

/-- If the paths refer to nothing, a section refers to its variables only. -/
theorem references_documentSection_of_plain {paths : List String}
    (h : ∀ path ∈ paths, references path.toList = []) :
    references (Text.join "\n" (documentSection paths)).toList =
      (documentVariables paths).map String.toList := by
  have hlength : (documentVariables paths).length ≤ paths.length := by
    rw [documentVariables, length_documentVariablesFrom]
  have hentry : ∀ entry ∈ paths.zip (documentVariables paths),
      references entry.1.toList ++ [entry.2.toList] = [entry.2.toList] := by
    intro entry hentry
    rw [h _ (List.of_mem_zip hentry).1, List.nil_append]
  calc references (Text.join "\n" (documentSection paths)).toList
    _ = (paths.zip (documentVariables paths)).flatMap fun entry => [entry.2.toList] := by
        rw [references_documentSection, List.flatMap_congr hentry]
    _ = ((paths.zip (documentVariables paths)).map Prod.snd).map String.toList := by
        rw [List.map_map, List.map_eq_flatMap]
        rfl
    _ = (documentVariables paths).map String.toList := by
        rw [List.map_snd_zip hlength]

theorem exists_section_of_invocation {index number : Int} {agent : Agent} {call : Invocation}
    (h : setting.invocation recipe step index number backend agent = .ok call)
    (hdocuments : step.includeDocuments ≠ []) :
    ∃ task, step.task = .text task ∧
      call.task = substitute task ((setting.variableDefaults recipe).map (·.1)) ++ "\n" ++
        Text.join "\n" (documentSection step.includeDocuments) ++
        (step.outputDocument.map saveInstruction).getD "" := by
  obtain ⟨task, hown, htask⟩ := exists_task_of_invocation h
  rw [addition, if_neg (by simpa using hdocuments)] at htask
  exact ⟨task, hown, by rw [htask, ← String.append_assoc, ← String.append_assoc]⟩

/--
The documents of a step have a variable each: the first numbered form of its
name that none in front of it has. A step that is carried out loads them in
their order, each into its variable, and its task shows each by its variable
below a heading with its path; other references in that section stand in the
paths. A document is loaded from where every backend keeps the response of a
step whose output document has the same path.
-/
theorem handover_consistent (setting : Setting) (recipe : Recipe) (step : Step) :
    let paths := step.includeDocuments
    let names := documentVariables paths
    (names.length = paths.length ∧ names.Nodup ∧
      (∀ (i : Nat) (path : String), paths[i]? = some path → ∃ name, names[i]? = some name ∧
        FirstFree (names.take i) (documentVariable path) name) ∧
      ∀ name ∈ names,
        ∃ rest, name = "DOC_CONTENT_" ++ rest ∧ ∀ c ∈ rest.toList, isVariableChar c) ∧
    (∀ (index number : Int) (backend : Backend) (nodes : List Node) (s s' : Run × Log),
      exec (setting.lowerStep recipe step index number backend) s = (.ok nodes, s') →
      (∃ note message, nodes = skipped step note message) ∨
      ∃ agent call, setting.invocation recipe step index number backend agent = .ok call ∧
        loadersOf nodes = (paths.zip names).map fun entry =>
          ⟨entry.2, documentPath setting.docsDir entry.1,
            "[Document not found: " ++ escape entry.1 ++ "]"⟩) ∧
    (∀ (index number : Int) (backend : Backend) (agent : Agent) (call : Invocation),
      setting.invocation recipe step index number backend agent = .ok call → paths ≠ [] →
      ∃ task lines, step.task = .text task ∧
        call.task = substitute task ((setting.variableDefaults recipe).map (·.1)) ++ "\n" ++
          Text.join "\n" lines ++ (step.outputDocument.map saveInstruction).getD "" ∧
        lines = ["", "## Reference Documents (Context)", ""] ++
          (paths.zip names).flatMap shownDocument ++
          ["**Please use the documents above as context for your work.**"] ∧
        references (Text.join "\n" lines).toList = ((paths.zip names).flatMap fun entry =>
          references entry.1.toList ++ [entry.2.toList]) ∧
        ((∀ path ∈ paths, references path.toList = []) →
          references (Text.join "\n" lines).toList = names.map String.toList)) ∧
    ∀ (path : String) (backend : Backend) (call : Invocation),
      call.docsDir = setting.docsDir → call.step.outputDocument = some path →
      Backend.targets (backend.outputDocument call) ≠ [] ∧
      ∀ target ∈ Backend.targets (backend.outputDocument call),
        target = documentPath setting.docsDir path := by
  intro paths names
  refine ⟨⟨length_documentVariablesFrom [] paths, (nodup_documentVariablesFrom [] paths).1,
    fun i path hpath => ?_, fun name hname => exists_of_mem_documentVariables hname⟩,
    fun index number backend nodes s s' h => ?_, fun index number backend agent call h hne => ?_,
    fun path backend call hdocsDir houtput => ?_⟩
  · exact firstFree_documentVariablesFrom [] paths hpath
  · rcases of_exec_lowerStep_ok h with ⟨note, hskipped⟩ | ⟨agent, ⟨note, hskipped⟩ | hnodes⟩
    · exact .inl ⟨note, _, hskipped⟩
    · exact .inl ⟨note, _, hskipped⟩
    · obtain ⟨call, -, -, hcall, -⟩ := of_stepNodes_ok hnodes
      exact .inr ⟨agent, call, hcall, loadersOf_stepNodes hnodes⟩
  · obtain ⟨task, hown, htask⟩ := exists_section_of_invocation h hne
    exact ⟨task, _, hown, htask, rfl, references_documentSection paths,
      references_documentSection_of_plain⟩
  · obtain ⟨hne, htargets⟩ := backend.targets_outputDocument houtput
    exact ⟨hne, fun target htarget => hdocsDir ▸ htargets target htarget⟩

/-- A step whose documents have names in common, and one of them as its output document. -/
def numberedStep : Step :=
  { (default : Step) with
    id := .text "merge"
    agent := .text "coder"
    task := .text "Do it."
    includeDocuments := ["a", "notes/a", "a_2"]
    outputDocument := some "notes/a" }

/-- A number behind a name may be the end of another name. -/
theorem handover_consistent_numbered :
    ∃ nodes s', exec (retrySetting.lowerStep retryRecipe numberedStep 0 1 .copilotCli)
        (retryRun, []) = (.ok nodes, s') ∧
      loadersOf nodes =
        [⟨"DOC_CONTENT_A", "docs/a", "[Document not found: a]"⟩,
          ⟨"DOC_CONTENT_A_2", "docs/a", "[Document not found: notes/a]"⟩,
          ⟨"DOC_CONTENT_A_2_2", "docs/a_2", "[Document not found: a_2]"⟩] ∧
      ∃ agent call lines,
        retrySetting.invocation retryRecipe numberedStep 0 1 .copilotCli agent = .ok call ∧
        call.task = "Do it." ++ "\n" ++ Text.join "\n" lines ++ saveInstruction "notes/a" ∧
        references (Text.join "\n" lines).toList =
          ["DOC_CONTENT_A", "DOC_CONTENT_A_2", "DOC_CONTENT_A_2_2"].map String.toList ∧
        ∀ target ∈ Backend.targets (Backend.outputDocument .copilotCli call),
          target = "docs/a" := by
  obtain ⟨nodes, s', hlowered⟩ : ∃ nodes s',
      exec (retrySetting.lowerStep retryRecipe numberedStep 0 1 .copilotCli) (retryRun, []) =
        (.ok nodes, s') :=
    exists_exec_of_isOk (by decide +kernel)
  -- The step is not passed over: a message alone would be three nodes.
  have hlength : (exec (retrySetting.lowerStep retryRecipe numberedStep 0 1 .copilotCli)
      (retryRun, [])).1.toOption.map List.length = some 13 := by
    decide +kernel
  have hnames : documentVariables numberedStep.includeDocuments =
      ["DOC_CONTENT_A", "DOC_CONTENT_A_2", "DOC_CONTENT_A_2_2"] := by
    decide +kernel
  obtain ⟨-, hloaders, hsection, hkept⟩ :=
    handover_consistent retrySetting retryRecipe numberedStep
  rw [hnames] at hloaders hsection
  rcases hloaders 0 1 .copilotCli nodes _ s' hlowered with
    ⟨note, message, hskipped⟩ | ⟨agent, call, hcall, hloaded⟩
  · rw [hlowered, hskipped] at hlength
    cases hlength
  · obtain ⟨task, lines, htask, htext, -, -, hplain⟩ :=
      hsection 0 1 .copilotCli agent call hcall (by decide)
    have hsame : substitute "Do it." ((retrySetting.variableDefaults retryRecipe).map (·.1)) =
        "Do it." := by
      decide +kernel
    cases htask
    rw [hsame] at htext
    have hdocsDir : call.docsDir = retrySetting.docsDir := by
      cases hcall
      rfl
    have houtput : call.step.outputDocument = some "notes/a" := by
      cases hcall
      rfl
    exact ⟨nodes, s', hlowered, hloaded.trans (by decide +kernel), agent, call, lines, hcall,
      htext, hplain (by decide +kernel), (hkept "notes/a" .copilotCli call hdocsDir houtput).2⟩

/-- A step whose document is in a place that a variable of the caller tells. -/
def borrowingStep : Step :=
  { (default : Step) with
    id := .text "plan"
    agent := .text "coder"
    task := .text "Do it."
    includeDocuments := ["$\x7bHOME\x7d/plan.md"] }

/-- The path of a document is not escaped in its heading, so a reference in it is one. -/
theorem references_borrowingStep :
    retrySetting.taskText retryRecipe borrowingStep = .ok ("Do it.\n" ++
      Text.join "\n" (documentSection borrowingStep.includeDocuments)) ∧
    references (Text.join "\n" (documentSection borrowingStep.includeDocuments)).toList =
      ["HOME".toList, "DOC_CONTENT_PLAN_MD".toList] ∧
    references (Text.join "\n" (documentSection borrowingStep.includeDocuments)).toList ≠
      (documentVariables borrowingStep.includeDocuments).map String.toList := by
  exact ⟨by cbv, by decide +kernel, by decide +kernel⟩

end Setting

end Playbook
