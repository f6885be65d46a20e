import Playbook.Proofs.Recipe.Compilation
import Playbook.Proofs.Shell.Quoting

/-!
# Names in statements

The statements of a step by their parts: where its id and the names of its
documents stand as they are, and where they are escaped.
-/

namespace Playbook

open Shell Shell.Node Shell.Form Work

/-! ## Tools -/

namespace Backend

variable {invocation : Invocation}

/-- The statements of a system prompt; its fourth node tells which step it is. -/
def systemForms (invocation : Invocation) : Attempt (List Form) := do
  let nodes ← systemPrompt invocation
  return ofNodes (nodes.take 3) ++
    [.own ("SYSTEM_PROMPT=\"$\x7bSYSTEM_PROMPT\x7d" ++ ("Recipe: " ++
        invocation.recipeId.display ++ "\\nStep: " ++ toString invocation.stepNumber ++ " (")),
      .name invocation.step.id.display, .own ")\""] ::
    ofNodes (nodes.drop 4)

def manualForms (tool : ManualTool) (invocation : Invocation) : List Form :=
  [[.own ("echo \"⚠️  Please execute step " ++ toString invocation.stepNumber ++ " ("),
      .name invocation.step.id.display, .own ") in ", .escaped tool.label, .own "\""],
   [.own ("echo \"   Agent: @" ++ invocation.agent.id.display ++ "\"")],
   [.own "read -r -p \"Press Enter when done... \" _"],
   [.own "RESPONSE=\"\""]]

/-- The statements that carry out a step. -/
def callForms (backend : Backend) (invocation : Invocation) : Attempt (List Form) :=
  match backend with
  | .claudeCode => do
      let system ← systemForms invocation
      let flags ← claudeFlags invocation
      return system ++ ofNodes (if invocation.continuation then resumeConversation else []) ++
        [[.own "echo \"⚡ Executing with claude-code...\""],
         [.own ("RESPONSE=$(claude @" ++ invocation.agent.id.display ++ " " ++
            Text.join " " flags ++ " --print \""), .escaped invocation.task, .own "\")"],
         [.own "echo \"$RESPONSE\""]] ++
        ofNodes (if invocation.chainStart then captureConversation else [])
  | .copilotCli => do
      let flags ← copilotFlags invocation
      return [[.own "echo \"⚡ Executing with copilot-cli...\""],
        [.own "RESPONSE=$(copilot -p \"",
          .escaped ("@" ++ invocation.agent.id.display ++ " " ++ invocation.task),
          .own ("\"" ++ (if flags.isEmpty then "" else " " ++ Text.join " " flags) ++ ")")],
        [.own "echo \"$RESPONSE\""]]
  | .manual tool => .ok (manualForms tool invocation)

def outputForms (backend : Backend) (invocation : Invocation) : List Form :=
  match invocation.step.outputDocument with
  | none => []
  | some path =>
      let directory := invocation.docsDir ++ "/"
      let base := (Path.ofText path).name
      if backend.isManual then
        [[.own ("echo \"📄 Save the response manually to: " ++ directory), .name base, .own "\""],
         [.own ("if [ ! -f \"" ++ directory), .name base, .own "\" ]; then"],
         [.own ("echo \"⚠️  Document not saved yet: " ++ directory), .name base, .own "\""]]
      else
        [[.own ("echo \"$RESPONSE\" > \"" ++ directory), .name base, .own "\""],
         [.own "echo \"✓ Document saved: ", .escaped path, .own "\""]]

theorem systemPrompt_eq {nodes : List Node} (h : systemPrompt invocation = .ok nodes) :
    nodes = nodes.take 3 ++ systemPromptLine ("Recipe: " ++ invocation.recipeId.display ++
      "\\nStep: " ++ toString invocation.stepNumber ++ " (" ++ invocation.step.id.display ++ ")") ::
        nodes.drop 4 := by
  unfold systemPrompt at h
  dsimp only at h
  split at h
  · obtain ⟨trimmed, -, h⟩ := Attempt.of_bind_ok h
    obtain ⟨text, -, h⟩ := Attempt.of_bind_ok h
    cases h
    rfl
  · cases h
    rfl

/-! ### Flags -/

/-- Quotes that a flag opens it closes again. -/
def Closed (flag : String) : Prop := Turns .bare flag .bare

theorem closed_quoted {front : String} (h : Turns .bare front .double) (value : String) :
    Closed (front ++ escape value ++ "\"") := by
  have hclose : Turns .double "\"" .bare := fun _ => rfl
  exact (h.append (turns_escape value)).append hclose

theorem closed_join {flags : List String} (h : ∀ flag ∈ flags, Closed flag) :
    Closed (Text.join " " flags) := by
  induction flags with
  | nil => exact fun _ => rfl
  | cons flag flags ih =>
      obtain ⟨hflag, hflags⟩ := List.forall_mem_cons.1 h
      cases flags with
      | nil => exact hflag
      | cons other flags =>
          have hblank : Turns .bare " " .bare := fun _ => rfl
          rw [Text.join, String.intercalate_cons_cons, ← Text.join]
          exact (Turns.append hflag hblank).append (ih hflags)

theorem closed_modelFlag : ∀ flag ∈ modelFlag invocation, Closed flag := by
  unfold modelFlag
  split
  · split
    · exact nofun
    · have hfront : Turns .bare "--model \"" .double := fun _ => rfl
      exact List.forall_mem_singleton.2 (closed_quoted hfront _)
  · exact nofun

theorem closed_joinedFlag {flag : String} (h : Turns .bare (flag ++ " \"") .double)
    (values : List String) : ∀ joined ∈ joinedFlag flag values, Closed joined := by
  unfold joinedFlag
  split
  · exact nofun
  · exact List.forall_mem_singleton.2 (closed_quoted h _)

theorem closed_claudeFlags {flags : List String} (h : claudeFlags invocation = .ok flags) :
    ∀ flag ∈ flags, Closed flag := by
  obtain ⟨allowed, -, h⟩ := Attempt.of_bind_ok h
  obtain ⟨disallowed, -, h⟩ := Attempt.of_bind_ok h
  obtain ⟨mode, -, h⟩ := Attempt.of_bind_ok h
  cases h
  have hgoesOn : ∀ flag ∈ if invocation.continuation then ["\"$\x7bCONTINUE_ARGS[@]\x7d\""]
      else [], Closed flag := by
    split
    · exact List.forall_mem_singleton.2 fun _ => rfl
    · exact nofun
  have hallowed : ∀ flag ∈ joinedFlag "--allowedTools" allowed, Closed flag :=
    closed_joinedFlag (fun _ => rfl) allowed
  have hdisallowed : ∀ flag ∈ joinedFlag "--disallowedTools" disallowed, Closed flag :=
    closed_joinedFlag (fun _ => rfl) disallowed
  have hopen : Turns .bare "--permission-mode \"" .double := fun _ => rfl
  have hmode := closed_quoted hopen mode
  have hsystem : Closed "--append-system-prompt \"$SYSTEM_PROMPT\"" := fun _ => rfl
  simp only [List.forall_mem_append, List.forall_mem_cons]
  exact ⟨⟨⟨⟨hgoesOn, closed_modelFlag⟩, hallowed⟩, hdisallowed⟩, hmode, hsystem, nofun⟩

theorem exists_systemForms {nodes : List Node} (h : systemPrompt invocation = .ok nodes) :
    ∃ forms, systemForms invocation = .ok forms ∧
      Shows (Plain invocation.recipeId.display) nodes forms ∧
      forms.flatMap names = [invocation.step.id.display] := by
  refine ⟨_, Attempt.bind_eq_of_ok h _, ⟨?_, fun hrecipe => ?_⟩, by simp [names]⟩
  · conv_rhs => rw [systemPrompt_eq h]
    simp [text, Part.text, systemPromptLine, String.append_assoc]
  · have hopen : Turns .bare "SYSTEM_PROMPT=\"$\x7bSYSTEM_PROMPT\x7d" .double := fun _ => rfl
    have hnamed : Turns .double "Recipe: " .double := fun _ => rfl
    have hstep : Turns .double "\\nStep: " .double := fun _ => rfl
    have hclose : Turns .double " (" .double := fun _ => rfl
    have hfront := hopen.append ((((hnamed.append hrecipe.turns).append hstep).append
      (tame_int invocation.stepNumber).plain.turns).append hclose)
    exact allPlaced_append.2 ⟨allPlaced_ofNodes _,
      allPlaced_cons.2 ⟨placed_name hfront, allPlaced_ofNodes _⟩⟩

/-! ### Calls -/

/-- Ids that leave the quotes of a call alone. -/
def Settled (invocation : Invocation) : Prop :=
  Plain invocation.recipeId.display ∧ Tame invocation.agent.id.display

theorem exists_claudeForms {nodes : List Node} (h : claudeStep invocation = .ok nodes) :
    ∃ forms, callForms .claudeCode invocation = .ok forms ∧
      Shows (Settled invocation) nodes forms ∧
      ∀ name ∈ forms.flatMap names, name = invocation.step.id.display := by
  obtain ⟨system, hsystem, h⟩ := Attempt.of_bind_ok h
  obtain ⟨flags, hflags, h⟩ := Attempt.of_bind_ok h
  cases h
  obtain ⟨forms, hforms, hshows, hnames⟩ := exists_systemForms hsystem
  refine ⟨_, (Attempt.bind_eq_of_ok hforms _).trans (Attempt.bind_eq_of_ok hflags _),
    ⟨?_, fun hsettled => ?_⟩, ?_⟩
  · simp [hshows.texts, text, Part.text, String.append_assoc]
  · have hopen : Turns .bare "RESPONSE=$(claude @" .bare := fun _ => rfl
    have hblank : Turns .bare " " .bare := fun _ => rfl
    have hprint : Turns .bare " --print \"" .double := fun _ => rfl
    have hfront := (((hopen.append hsettled.2.turns).append hblank).append
      (closed_join (closed_claudeFlags hflags))).append hprint
    simp only [allPlaced_append, allPlaced_cons]
    exact ⟨⟨⟨hshows.placed hsettled.1, allPlaced_ofNodes _⟩, trivial, placed_escaped hfront,
      trivial, allPlaced_nil⟩, allPlaced_ofNodes _⟩
  · simp [hnames, names]

theorem exists_copilotForms {nodes : List Node} (h : copilotStep invocation = .ok nodes) :
    ∃ forms, callForms .copilotCli invocation = .ok forms ∧
      Shows (Settled invocation) nodes forms ∧
      ∀ name ∈ forms.flatMap names, name = invocation.step.id.display := by
  obtain ⟨flags, hflags, h⟩ := Attempt.of_bind_ok h
  cases h
  refine ⟨_, Attempt.bind_eq_of_ok hflags _, ⟨?_, fun _ => ?_⟩, by simp [names]⟩
  · simp [text, Part.text, String.append_assoc]
  · have hfront : Turns .bare "RESPONSE=$(copilot -p \"" .double := fun _ => rfl
    simp only [allPlaced_cons]
    exact ⟨trivial, placed_escaped hfront, trivial, allPlaced_nil⟩

theorem shows_manualForms (tool : ManualTool) (invocation : Invocation) :
    Shows (Settled invocation) (manualStep tool invocation) (manualForms tool invocation) := by
  have hcomments : ∀ texts : List String,
      statementsOf (texts.map fun path => .comment
        ("  - " ++ documentPath invocation.docsDir path)) = [] := by
    intro texts
    induction texts with
    | nil => simp
    | cons path texts ih => simp [ih]
  constructor
  · unfold manualStep manualForms
    dsimp only
    cases invocation.model with
    | none =>
        by_cases hdocuments : invocation.documents = [] <;>
          simp [hdocuments, hcomments, text, Part.text, String.append_assoc]
    | some model =>
        by_cases hmodel : model = "" <;> by_cases hdocuments : invocation.documents = [] <;>
          simp [hmodel, hdocuments, hcomments, text, Part.text, String.append_assoc]
  · intro _
    have hopen : Turns .bare "echo \"⚠️  Please execute step " .double := fun _ => rfl
    have hbrace : Turns .double " (" .double := fun _ => rfl
    have hfront := (hopen.append (tame_int invocation.stepNumber).plain.turns).append hbrace
    have htool : Turns .double ") in " .double := fun _ => rfl
    simp only [manualForms, allPlaced_cons]
    exact ⟨placed_own hfront ⟨rfl, placed_own htool ⟨rfl, trivial⟩⟩, trivial, trivial, trivial,
      allPlaced_nil⟩

theorem exists_callForms {backend : Backend} {nodes : List Node}
    (h : backend.step invocation = .ok nodes) :
    ∃ forms, backend.callForms invocation = .ok forms ∧ Shows (Settled invocation) nodes forms ∧
      ∀ name ∈ forms.flatMap names, name = invocation.step.id.display := by
  cases backend with
  | claudeCode => exact exists_claudeForms h
  | copilotCli => exact exists_copilotForms h
  | manual tool =>
      cases h
      exact ⟨_, rfl, shows_manualForms tool invocation, by simp [manualForms, names]⟩

theorem shows_outputForms (backend : Backend) (invocation : Invocation) :
    Shows (Plain invocation.docsDir) (backend.outputDocument invocation)
      (backend.outputForms invocation) := by
  unfold outputDocument outputForms
  cases invocation.step.outputDocument with
  | none => exact .ofNodes []
  | some path =>
      have hslash : Turns .double "/" .double := fun _ => rfl
      dsimp only
      split
      · refine ⟨by simp [text, Part.text, documentPath, String.append_assoc], fun hdocs => ?_⟩
        have hdirectory := hdocs.turns.append hslash
        have hsave : Turns .bare "echo \"📄 Save the response manually to: " .double := fun _ => rfl
        have htest : Turns .bare "if [ ! -f \"" .double := fun _ => rfl
        have hmissing : Turns .bare "echo \"⚠️  Document not saved yet: " .double := fun _ => rfl
        simp only [allPlaced_cons]
        exact ⟨placed_name (hsave.append hdirectory), placed_name (htest.append hdirectory),
          placed_name (hmissing.append hdirectory), allPlaced_nil⟩
      · refine ⟨by simp [text, Part.text, documentPath, String.append_assoc], fun hdocs => ?_⟩
        have hkeep : Turns .bare "echo \"$RESPONSE\" > \"" .double := fun _ => rfl
        have hsaved : Turns .bare "echo \"✓ Document saved: " .double := fun _ => rfl
        simp only [allPlaced_cons]
        exact ⟨placed_name (hkeep.append (hdocs.turns.append hslash)), placed_escaped hsaved,
          allPlaced_nil⟩

theorem mem_names_outputForms {backend : Backend} {name : String} :
    name ∈ (backend.outputForms invocation).flatMap names ↔
      ∃ path ∈ invocation.step.outputDocument, (Path.ofText path).name = name := by
  unfold outputForms
  cases invocation.step.outputDocument with
  | none => simp
  | some path =>
      dsimp only
      split <;> simp [names, eq_comm]

end Backend

/-! ## Documents -/

namespace Shell

theorem tame_of_isVariableChar {c : Char} (h : isVariableChar c) :
    isEscaped c = false ∧ c ≠ '\'' := by
  refine ⟨isEscaped_eq_false_iff.2 ⟨?_, ?_, ?_⟩, ?_⟩ <;> rintro rfl <;> cases h

theorem tame_documentVariables {paths : List String} {name : String}
    (h : name ∈ documentVariables paths) : Tame name := by
  obtain ⟨rest, rfl, hrest⟩ := exists_of_mem_documentVariables h
  have hhead : Tame "DOC_CONTENT_" := by decide
  exact hhead.append fun c hc => tame_of_isVariableChar (hrest c hc)

end Shell

namespace Setting

variable {setting : Setting} {recipe : Recipe} {step : Step} {backend : Backend}

/-- The statements that load a document into a variable. -/
def loaderForms (setting : Setting) (entry : String × String) : List Form :=
  let directory := setting.docsDir ++ "/"
  let base := (Path.ofText entry.1).name
  [[.own ("if [ -f \"" ++ directory), .name base, .own "\" ]; then"],
   [.own (entry.2 ++ "=$(cat \"" ++ directory), .name base, .own "\")"],
   [.own (entry.2 ++ "=\"[Document not found: "), .escaped entry.1, .own "]\""]]

def documentForms (setting : Setting) (step : Step) : List Form :=
  (step.includeDocuments.zip (documentVariables step.includeDocuments)).flatMap setting.loaderForms

theorem shows_documentForms :
    Shows (Plain setting.docsDir) (setting.documentLoaders step) (setting.documentForms step) := by
  unfold documentLoaders documentForms
  split
  · case isTrue hempty =>
      rw [List.isEmpty_iff.1 hempty]
      exact .ofNodes []
  · have hslash : Turns .double "/" .double := fun _ => rfl
    have hcomment : ∀ note, Shows (Plain setting.docsDir) [.comment note] [] :=
      fun note => ⟨by simp, fun _ => allPlaced_nil⟩
    refine (hcomment _).append (.flatMap fun entry hentry => ?_)
    have hvariable := tame_documentVariables (List.of_mem_zip hentry).2
    refine ⟨by simp [loaderForms, text, Part.text, documentPath, String.append_assoc],
      fun hdocs => ?_⟩
    have hdirectory := hdocs.turns.append hslash
    have htest : Turns .bare "if [ -f \"" .double := fun _ => rfl
    have hcat : Turns .bare "=$(cat \"" .double := fun _ => rfl
    have hmissing : Turns .bare "=\"[Document not found: " .double := fun _ => rfl
    simp only [loaderForms, allPlaced_cons]
    exact ⟨placed_name (htest.append hdirectory),
      placed_name ((hvariable.turns.append hcat).append hdirectory),
      placed_escaped (hvariable.turns.append hmissing), allPlaced_nil⟩

theorem mem_names_documentForms {name : String} :
    name ∈ (setting.documentForms step).flatMap names ↔
      ∃ path ∈ step.includeDocuments, (Path.ofText path).name = name := by
  have hpaths : (step.includeDocuments.zip (documentVariables step.includeDocuments)).map (·.1) =
      step.includeDocuments :=
    List.map_fst_zip (length_documentVariablesFrom [] step.includeDocuments).ge
  conv_rhs => rw [← hpaths]
  simp [documentForms, loaderForms, names, List.flatMap_assoc, eq_comm]

/-! ## Steps -/

/-- The statements of a condition around those of its step. -/
def conditionedForms (step : Step) (body : List Form) : List Form :=
  match step.condition with
  | some ⟨.fileExists, some check⟩ =>
      [.own ("if [ -f \"" ++ escape check.value ++ "\" ]; then")] ::
        [.own ("echo \"  (Skipping: file " ++ escape check.value ++ " exists)\"")] :: body
  | some ⟨.userDecision, check⟩ =>
      [.own "read -r -p \"", .escaped (textOr ((check.map (·.prompt)).getD "")
          ("Execute step " ++ step.id.display ++ "? (y/n) ")), .own "\" REPLY"] ::
        [.own "if [[ \"$REPLY\" =~ ^[Yy]$ ]]; then"] :: body ++
        [[.own "echo \"  (Skipping step ", .name step.id.display, .own ")\""]]
  | _ => body

theorem shows_conditionedForms {settled : Prop} {body : List Node} {forms : List Form}
    (h : Shows settled body forms) :
    Shows settled (conditioned step body) (conditionedForms step forms) := by
  unfold conditioned conditionedForms
  rcases step.condition with _ | ⟨_ | _ | _ | _ | _, check⟩
  case some.fileExists =>
    cases check with
    | none => exact h
    | some check =>
        refine ⟨by simp [h.texts, text, Part.text], fun hsettled => ?_⟩
        exact allPlaced_cons.2 ⟨trivial, allPlaced_cons.2 ⟨trivial, h.placed hsettled⟩⟩
  case some.userDecision =>
    refine ⟨by simp [h.texts, text, Part.text, String.append_assoc], fun hsettled => ?_⟩
    have hread : Turns .bare "read -r -p \"" .double := fun _ => rfl
    have hskip : Turns .bare "echo \"  (Skipping step " .double := fun _ => rfl
    simp only [allPlaced_append, allPlaced_cons]
    exact ⟨⟨placed_escaped hread, trivial, h.placed hsettled⟩, placed_name hskip, allPlaced_nil⟩
  case some.onFailure => exact ⟨by simp [h.texts], h.placed⟩
  all_goals exact h

theorem mem_names_conditionedForms {forms : List Form} {name : String} :
    name ∈ step.id.display :: (conditionedForms step forms).flatMap names ↔
      name ∈ step.id.display :: forms.flatMap names := by
  unfold conditionedForms
  rcases step.condition with _ | ⟨_ | _ | _ | _ | _, check⟩
  case some.fileExists => cases check <;> simp [names]
  case some.userDecision =>
    simp only [List.mem_cons, List.flatMap_append, List.flatMap_cons, List.flatMap_nil, names,
      List.mem_append]
    tauto
  all_goals rfl

/-- What becomes of a step: its agent is unknown or kept out, or carries it out. -/
inductive Fate where
  | unknown
  | excluded (agent : Agent)
  | taken (agent : Agent)

def announcementForm (step : Step) (number : Int) : Form :=
  [.own ("echo \"▶️  " ++ ("Step " ++ toString number ++ ": ")), .name step.id.display,
    .own (" (" ++ step.agent.display ++ ")\"")]

def skippedForm (step : Step) (message : String) : Form :=
  [.own "echo \"⚠️  Skipping step ", .name step.id.display, .own (": " ++ message ++ "\"")]

/-- The statements of a step that is taken, around those of its call. -/
def takenForms (setting : Setting) (step : Step) (number : Int) (backend : Backend)
    (invocation : Invocation) (call : List Form) : List Form :=
  [announcementForm step number] ++
    conditionedForms step (setting.documentForms step ++ call ++
      backend.outputForms invocation ++ ofNodes (guardNodes step)) ++
    ofNodes (if step.waitForConfirmation then confirmation else []) ++
    ofNodes [.line "echo \"\"", .blank]

def stepForms (setting : Setting) (recipe : Recipe) (step : Step) (index number : Int)
    (backend : Backend) : Fate → Attempt (List Form)
  | .unknown => .ok [skippedForm step ("agent " ++ step.agent.display ++ " not found")]
  | .excluded agent => .ok [skippedForm step ("agent " ++ agent.id.display ++ " excluded")]
  | .taken agent => do
      let invocation ← setting.invocation recipe step index number backend agent
      let call ← backend.callForms invocation
      return setting.takenForms step number backend invocation call

/-- The names that stand in the statements of a step as they are. -/
def shownNames (step : Step) : Fate → List String
  | .unknown | .excluded _ => [step.id.display]
  | .taken _ => step.id.display ::
      (step.includeDocuments ++ step.outputDocument.toList).map fun path => (Path.ofText path).name

/-- The texts of a step that are no names of its own leave the quotes around them alone. -/
def Settled (setting : Setting) (recipe : Recipe) : Fate → Prop
  | .unknown | .excluded _ => True
  | .taken agent => Plain setting.docsDir ∧ Plain recipe.id.display ∧ Tame agent.id.display

theorem shows_announcement {settled : Prop} {number : Int} {title : String}
    (h : stepTitle step number = .ok title) :
    Shows settled [.comment title, .line ("echo \"▶️  " ++ title ++ "\"")]
      [announcementForm step number] := by
  refine ⟨?_, fun _ => allPlaced_cons.2 ⟨?_, allPlaced_nil⟩⟩
  · rw [statementsOf_cons, statementsOf_cons, statements_comment, statements_line,
      ← stepTitle_eq h]
    simp [announcement, announcementForm, text, Part.text, String.append_assoc]
  · have hopen : Turns .bare "echo \"▶️  " .double := fun _ => rfl
    have hstep : Turns .double "Step " .double := fun _ => rfl
    have hcolon : Turns .double ": " .double := fun _ => rfl
    exact placed_name (hopen.append ((hstep.append (tame_int number).plain.turns).append hcolon))

theorem mem_names_takenForms {number : Int} {invocation : Invocation} {call : List Form}
    {agent : Agent} {name : String} (hcall : ∀ name ∈ call.flatMap names, name = step.id.display)
    (hstep : invocation.step = step) :
    name ∈ (setting.takenForms step number backend invocation call).flatMap names ↔
      name ∈ shownNames step (.taken agent) := by
  have hbody : name ∈ (setting.documentForms step ++ call ++ backend.outputForms invocation ++
      ofNodes (guardNodes step)).flatMap names ↔
      (∃ path ∈ step.includeDocuments, (Path.ofText path).name = name) ∨
        name ∈ call.flatMap names ∨
        ∃ path ∈ step.outputDocument, (Path.ofText path).name = name := by
    rw [List.flatMap_append, List.flatMap_append, List.flatMap_append, flatMap_names_ofNodes,
      List.append_nil, List.mem_append, List.mem_append, mem_names_documentForms,
      Backend.mem_names_outputForms, hstep, or_assoc]
  have hshown : name ∈ shownNames step (.taken agent) ↔ name = step.id.display ∨
      (∃ path ∈ step.includeDocuments, (Path.ofText path).name = name) ∨
        ∃ path ∈ step.outputDocument, (Path.ofText path).name = name := by
    simp [shownNames]
  have hannounced : ([announcementForm step number] : List Form).flatMap names =
      [step.id.display] := rfl
  rw [takenForms, List.flatMap_append, List.flatMap_append, List.flatMap_append,
    flatMap_names_ofNodes, flatMap_names_ofNodes, List.append_nil, List.append_nil, hannounced,
    List.singleton_append, mem_names_conditionedForms, List.mem_cons, hbody, hshown]
  -- A call shows no name but the id, which the announcement shows already.
  constructor
  · rintro (hid | hdocument | hcalled | houtput)
    exacts [.inl hid, .inr (.inl hdocument), .inl (hcall name hcalled), .inr (.inr houtput)]
  · rintro (hid | hdocument | houtput)
    exacts [.inl hid, .inr (.inl hdocument), .inr (.inr (.inr houtput))]

theorem exists_stepForms {index number : Int} {agent : Agent} {nodes : List Node}
    (h : setting.stepNodes recipe step index number backend agent = .ok nodes) :
    ∃ forms, setting.stepForms recipe step index number backend (.taken agent) = .ok forms ∧
      Shows (Settled setting recipe (.taken agent)) nodes forms ∧
      ∀ name, name ∈ forms.flatMap names ↔ name ∈ shownNames step (.taken agent) := by
  obtain ⟨invocation, call, title, hinvocation, hcall, htitle, rfl⟩ := of_stepNodes_ok h
  obtain ⟨forms, hforms, hshows, hnames⟩ := Backend.exists_callForms hcall
  obtain ⟨task, _, hparts⟩ := Attempt.of_bind_ok hinvocation
  obtain ⟨hstep, hdocsDir, hsettled⟩ : invocation.step = step ∧
      invocation.docsDir = setting.docsDir ∧
      (Settled setting recipe (.taken agent) → Backend.Settled invocation) := by
    cases hparts
    exact ⟨rfl, rfl, And.right⟩
  refine ⟨_, (Attempt.bind_eq_of_ok hinvocation _).trans (Attempt.bind_eq_of_ok hforms _), ?_,
    fun name => mem_names_takenForms (hstep ▸ hnames) hstep⟩
  have houtput : Shows (Plain setting.docsDir) _ _ :=
    hdocsDir ▸ backend.shows_outputForms invocation
  have hbody : Shows (Settled setting recipe (.taken agent))
      (setting.documentLoaders step ++ call ++ backend.outputDocument invocation ++
        guardNodes step) _ :=
    (((shows_documentForms.mono And.left).append (hshows.mono hsettled)).append
      (houtput.mono And.left)).append (.ofNodes _)
  exact (((shows_announcement htitle).append (shows_conditionedForms hbody)).append
    (.ofNodes _)).append (.ofNodes _)

theorem shows_skipped (settled : Prop) (note message : String) :
    Shows settled (skipped step note message) [skippedForm step message] := by
  refine ⟨?_, fun _ => allPlaced_cons.2 ⟨placed_name fun _ => rfl, allPlaced_nil⟩⟩
  simp [skipped, skippedForm, text, Part.text, String.append_assoc]

theorem exists_fate {index number : Int} {nodes : List Node} {s s' : Run × Log}
    (h : exec (setting.lowerStep recipe step index number backend) s = (.ok nodes, s')) :
    ∃ fate forms, setting.stepForms recipe step index number backend fate = .ok forms ∧
      Shows (setting.Settled recipe fate) nodes forms ∧
      ∀ name, name ∈ forms.flatMap names ↔ name ∈ shownNames step fate := by
  rcases of_exec_lowerStep_ok h with ⟨note, rfl⟩ | ⟨agent, ⟨note, rfl⟩ | hnodes⟩
  · exact ⟨.unknown, _, rfl, shows_skipped _ _ _, fun _ => Iff.rfl⟩
  · exact ⟨.excluded agent, _, rfl, shows_skipped _ _ _, fun _ => Iff.rfl⟩
  · exact ⟨.taken agent, exists_stepForms hnodes⟩

/--
The statements of a step are those of its forms. They are guarded exactly if
the id of the step and, where an agent carries it out, the last names of its
documents have nothing to be escaped: these stand in the statements as they
are, and only whole texts and paths are escaped. Where the texts around them
leave the quotes alone, a shell reads a statement as it is meant exactly if
the names in it stand for themselves; so it does if the statement is guarded.
-/
theorem guarded_lowerStep {index number : Int} {nodes : List Node} {s s' : Run × Log}
    (h : exec (setting.lowerStep recipe step index number backend) s = (.ok nodes, s')) :
    ∃ fate forms, setting.stepForms recipe step index number backend fate = .ok forms ∧
      statementsOf nodes = forms.map text ∧
      ((∀ form ∈ forms, form.Guarded) ↔ ∀ name ∈ shownNames step fate, Plain name) ∧
      (setting.Settled recipe fate →
        ∀ form ∈ forms, (form.Reads ↔ form.Literal) ∧ (form.Guarded → form.Reads)) := by
  obtain ⟨fate, forms, hforms, hshows, hnames⟩ := exists_fate h
  refine ⟨fate, forms, hforms, hshows.texts.symm, ?_, fun hsettled form hform => ?_⟩
  · have hguarded : (∀ form ∈ forms, form.Guarded) ↔ ∀ name ∈ forms.flatMap names, Plain name :=
      List.forall_mem_flatMap.symm
    rw [hguarded]
    exact forall_congr' fun name => by rw [hnames]
  · have hreads := reads_iff (hshows.placed hsettled form hform)
    exact ⟨hreads, fun hform => hreads.2 hform.literal⟩

/-- A step whose id closes the quotes that are opened for it. -/
def hostileStep : Step :=
  { (default : Step) with
    id := .text "fix\"; touch notes; echo \""
    agent := .text "coder"
    task := .text "Do it."
    includeDocuments := ["in/plan\x60id\x60.md"]
    outputDocument := some "out/no\"tes.md" }

theorem guarded_lowerStep_hostile :
    ∃ nodes s', exec (retrySetting.lowerStep retryRecipe hostileStep 0 1 .copilotCli)
        (retryRun, []) = (.ok nodes, s') ∧
      ∃ fate forms,
        retrySetting.stepForms retryRecipe hostileStep 0 1 .copilotCli fate = .ok forms ∧
        statementsOf nodes = forms.map text ∧ (¬ ∀ form ∈ forms, form.Guarded) ∧
        (retrySetting.Settled retryRecipe fate →
          ∀ form ∈ forms, (form.Reads ↔ form.Literal) ∧ (form.Guarded → form.Reads)) := by
  obtain ⟨nodes, s', hlowered⟩ : ∃ nodes s',
      exec (retrySetting.lowerStep retryRecipe hostileStep 0 1 .copilotCli) (retryRun, []) =
        (.ok nodes, s') :=
    exists_exec_of_isOk (by decide +kernel)
  obtain ⟨fate, forms, hforms, htexts, hguarded, hreads⟩ := guarded_lowerStep hlowered
  have hid : hostileStep.id.display ∈ shownNames hostileStep fate := by
    cases fate <;> exact List.mem_cons_self
  have hhostile : ¬ Plain hostileStep.id.display := by decide
  exact ⟨nodes, s', hlowered, fate, forms, hforms, htexts,
    fun hall => hhostile (hguarded.1 hall _ hid), hreads⟩

/-- The announcement of the step ends in a command. -/
example : ¬ (announcementForm hostileStep 1).Reads := by decide

end Setting

end Playbook
