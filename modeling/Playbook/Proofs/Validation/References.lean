import Playbook.Proofs.Validation.Collection

/-!
# References that were checked

A check that passes has found a manifest behind every reference, and no cycle
of inheritance when it is strict.
-/

namespace Playbook.Validation

variable {strict : Prop} {documents : Documents}

/-- A value is the id of one of some documents. -/
def Known (documents : Documents) (ref : Value) : Prop :=
  ref.isAmong (documents.map (·.1)) = true

theorem finds_requireKnown (documents : Documents) (location kind : String) (path : Path)
    (ref : Value) :
    Finds strict (requireKnown documents location kind path ref) fun c _ c' =>
      Known documents ref ∧ Keeps c c' := by
  unfold requireKnown
  refine ((Finds.attempt _).bind fun found => Finds.refused (Finds.never (Finds.attempt _)
    fun _ => finds_addError _ _ _ _ _)).mono ?_
  rintro c _ c' ⟨found, _, ⟨hfound, rfl⟩, hknown, hkeeps⟩
  refine ⟨?_, hkeeps⟩
  rw [refersTo] at hfound
  split at hfound
  · cases hfound
    simpa [Known] using hknown
  · cases hfound

/-! ## Rulepacks -/

theorem finds_checkRulepacks :
    Finds strict checkRulepacks fun c _ c' => Keeps c c' ∧ ∃ graph : Graph,
      List.Forall₂ (fun entry node => node.1 = entry.1 ∧ parentsOf entry.2.value = .ok node.2 ∧
        ∀ parent ∈ node.2, knows (c.documents .rulepack) parent = true)
        (c.documents .rulepack) graph ∧
      (strict → ∀ cycle ∈ graph.cycles,
        (c.documents .rulepack).lookup (cycle.headD "") = none) := by
  unfold checkRulepacks
  have hnode (documents : Documents) (entry : String × Document) :
      Finds strict (do
        let parents ← (parentsOf entry.2.value : Attempt (List String))
        parents.forM fun parent => do
          if !knows documents parent then
            missing ("rulepack:" ++ entry.1) "rulepack" parent entry.2.path
        return (entry.1, parents)) fun c node c' =>
          (node.1 = entry.1 ∧ parentsOf entry.2.value = .ok node.2 ∧
            ∀ parent ∈ node.2, knows documents parent = true) ∧ Keeps c c' := by
    refine ((Finds.attempt _).bind fun parents => (Finds.forM_keeps fun parent _ =>
      Finds.refused (finds_addError _ _ _ _ _)).bind fun _ => Finds.pure (entry.1, parents)).mono ?_
    rintro c _ c' ⟨parents, _, ⟨hparents, rfl⟩, _, _, ⟨hall, hkeeps⟩, rfl, rfl⟩
    exact ⟨⟨rfl, hparents, fun parent hparent => by simpa using hall parent hparent⟩, hkeeps⟩
  refine ((finds_documentsOf .rulepack).bind fun documents =>
    (Finds.mapM_keeps fun entry _ => hnode documents entry).bind fun graph => Finds.forM_keeps
      (P := fun cycle => strict → documents.lookup (cycle.headD "") = none)
      fun cycle _ => ?_).mono ?_
  · dsimp only
    cases hfirst : documents.lookup (cycle.headD "") with
    | none => exact Finds.nothing.mono fun c _ c' h => ⟨fun _ => rfl, h⟩
    | some document =>
        exact (finds_addWarning _ _ _ _ _).mono fun c _ c' h => ⟨fun hs => absurd hs h.1, h.2⟩
  · rintro c _ c' ⟨_, _, ⟨rfl, rfl⟩, graph, c₁, ⟨hgraph, hkeeps⟩, hcycles, hkeeps'⟩
    exact ⟨hkeeps.trans hkeeps', graph, hgraph, fun hs cycle hmem => hcycles cycle hmem hs⟩

/-! ## Agents -/

/-- The members of a field are ids of documents. -/
def MembersKnown (documents : Documents) (v : Value) (name : String) : Prop :=
  ∃ refs, membersOf v name = .ok refs ∧ ∀ ref ∈ refs, Known documents ref

theorem finds_checkAgents :
    Finds strict checkAgents fun c _ c' => Keeps c c' ∧ ∀ entry ∈ c.documents .agent,
      MembersKnown (c.documents .rulepack) entry.2.value "rulepacks" := by
  unfold checkAgents
  have hagent (rulepacks : Documents) (entry : String × Document) :
      Finds strict (do
        let refs ← (membersOf entry.2.value "rulepacks" : Attempt (List Value))
        refs.forM (requireKnown rulepacks ("agent:" ++ entry.1) "rulepack" entry.2.path))
        fun c _ c' => MembersKnown rulepacks entry.2.value "rulepacks" ∧ Keeps c c' := by
    refine ((Finds.attempt _).bind fun refs =>
      Finds.forM_keeps fun ref _ => finds_requireKnown rulepacks _ _ _ ref).mono ?_
    rintro c _ c' ⟨refs, _, ⟨hrefs, rfl⟩, hall, hkeeps⟩
    exact ⟨⟨refs, hrefs, hall⟩, hkeeps⟩
  refine ((finds_documentsOf .rulepack).bind fun rulepacks => (finds_documentsOf .agent).bind
    fun agents => Finds.forM_keeps fun entry _ => hagent rulepacks entry).mono ?_
  rintro c _ c' ⟨_, _, ⟨rfl, rfl⟩, _, _, ⟨rfl, rfl⟩, hall, hkeeps⟩
  exact ⟨hkeeps, hall⟩

/-! ## Recipes -/

/-- A step is for an agent that is there. -/
def StepKnown (agents : Documents) (v : Value) : Prop :=
  (field v "agent").isGiven = true → Known agents (field v "agent")

theorem finds_checkStep (agents : Documents) (location : String) (path : Path)
    (seen : List Value) (entry : Value × Nat) :
    Finds strict (checkStep agents location path seen entry) fun c ids c' =>
      ids = seen ++ [field entry.1 "id"] ∧ StepKnown agents entry.1 ∧ Keeps c c' := by
  unfold checkStep
  have hlast (place : String) : Finds strict (do
      if (field entry.1 "agent").isGiven then
        requireKnown agents place "agent" path (field entry.1 "agent")
      return seen ++ [field entry.1 "id"]) fun c ids c' =>
        ids = seen ++ [field entry.1 "id"] ∧ StepKnown agents entry.1 ∧ Keeps c c' := by
    refine Finds.ite (fun _ => ((finds_requireKnown agents _ _ path _).bind fun _ =>
      Finds.pure _).mono ?_) fun hno => (Finds.pure _).mono ?_
    · rintro c ids c' ⟨_, _, ⟨hknown, hkeeps⟩, rfl, rfl⟩
      exact ⟨rfl, fun _ => hknown, hkeeps⟩
    · rintro c ids c' ⟨rfl, rfl⟩
      exact ⟨rfl, fun hgiven => absurd hgiven hno, .refl _⟩
  refine (Finds.guarded (Finds.throw _) (Finds.ite (fun _ => ?_) fun _ => hlast _)).mono
    fun _ _ _ h => h.2
  refine (Finds.never (Finds.attempt _) fun _ => ?_).mono fun _ _ _ h => h.elim
  exact ((finds_addError _ _ _ _ _).bind fun _ => hlast _).mono fun _ _ _ ⟨_, _, h, _⟩ => h

theorem finds_checkSteps (agents : Documents) (location : String) (path : Path)
    (entries : List (Value × Nat)) (seen : List Value) :
    Finds strict (entries.foldlM (checkStep agents location path) seen) fun c ids c' =>
      ids = seen ++ entries.map (field ·.1 "id") ∧ (∀ entry ∈ entries, StepKnown agents entry.1) ∧
        Keeps c c' := by
  induction entries generalizing seen with
  | nil =>
      refine (Finds.pure seen).mono ?_
      rintro c ids c' ⟨rfl, rfl⟩
      exact ⟨by simp, by simp, .refl _⟩
  | cons entry entries ih =>
      rw [List.foldlM_cons]
      refine ((finds_checkStep agents location path seen entry).bind fun ids => ih ids).mono ?_
      rintro c _ c' ⟨_, c₁, ⟨rfl, hknown, hkeeps⟩, rfl, hall, hkeeps'⟩
      refine ⟨by simp, fun other hother => ?_, hkeeps.trans hkeeps'⟩
      rcases List.mem_cons.1 hother with rfl | hother
      · exact hknown
      · exact hall other hother

/-- A loop names only steps with some ids. -/
def LoopKnown (ids : List Value) (loop : Value) : Prop :=
  loop.isMapping = true → ∃ refs, membersOf loop "steps" = .ok refs ∧
    ∀ ref ∈ refs, ids.any (·.same ref) = true

theorem finds_checkLoop (location : String) (path : Path) (ids : List Value) (loop : Value) :
    Finds strict (checkLoop location path ids loop) fun c _ c' =>
      LoopKnown ids loop ∧ Keeps c c' := by
  unfold checkLoop
  refine Finds.ite (fun _ => ((Finds.attempt _).bind fun refs => (Finds.forM_keeps
    (P := fun ref => ids.any (·.same ref) = true) fun ref _ => ?_)).mono ?_) fun hno => ?_
  · refine (Finds.guarded (Finds.throw _) (Finds.refused (Finds.never (Finds.attempt _)
      fun _ => finds_addError _ _ _ _ _))).mono ?_
    rintro c _ c' ⟨-, hknown, hkeeps⟩
    exact ⟨by simpa using hknown, hkeeps⟩
  · rintro c _ c' ⟨refs, _, ⟨hrefs, rfl⟩, hall, hkeeps⟩
    exact ⟨fun _ => ⟨refs, hrefs, hall⟩, hkeeps⟩
  · exact Finds.nothing.mono fun c _ c' h => ⟨fun hyes => absurd hyes hno, h⟩

/-- The steps of a recipe are for agents that are there, and its loop is over some of them. -/
def RecipeKnown (agents : Documents) (v : Value) : Prop :=
  ∃ members, membersOf v "steps" = .ok members ∧
    (∀ x ∈ members.filter (·.isMapping), StepKnown agents x) ∧
      LoopKnown ((members.filter (·.isMapping)).map (field · "id")) (field v "loop")

theorem finds_checkRecipes (known : Option (List String)) :
    Finds strict (checkRecipes known) fun c _ c' => Keeps c c' ∧
      ∀ entry ∈ c.documents .recipe, RecipeKnown (c.documents .agent) entry.2.value := by
  unfold checkRecipes
  have hrecipe (agents : Documents) (entry : String × Document) :
      Finds strict (do
        let location := "recipe:" ++ entry.1
        let members ← (membersOf entry.2.value "steps" : Attempt (List Value))
        let steps := (members.filter (·.isMapping)).zipIdx
        let ids ← steps.foldlM (checkStep agents location entry.2.path) []
        checkLoop location entry.2.path ids (field entry.2.value "loop")
        checkTools known location (field entry.2.value "tools") entry.2.path)
        fun c _ c' => RecipeKnown agents entry.2.value ∧ Keeps c c' := by
    refine ((Finds.attempt _).bind fun members => (finds_checkSteps agents _ _ _ []).bind
      fun ids => (finds_checkLoop _ _ ids _).bind fun _ => finds_checkTools known _ _ _).mono ?_
    rintro c _ c' ⟨members, _, ⟨hmembers, rfl⟩, _, c₁, ⟨rfl, hsteps, hkeeps⟩, _, c₂,
      ⟨hloop, hkeeps'⟩, hkeeps''⟩
    refine ⟨⟨members, hmembers, fun x hx => ?_, ?_⟩, (hkeeps.trans hkeeps').trans hkeeps''⟩
    · obtain ⟨index, hindex, rfl⟩ := List.mem_iff_getElem.1 hx
      exact hsteps (_, index) (List.mk_mem_zipIdx_iff_getElem?.2 (List.getElem?_eq_getElem hindex))
    · have hids : (members.filter (·.isMapping)).zipIdx.map (field ·.1 "id") =
          (members.filter (·.isMapping)).map (field · "id") := by
        conv_rhs => rw [← List.zipIdx_map_fst 0 (members.filter (·.isMapping)), List.map_map]
        rfl
      rwa [List.nil_append, hids] at hloop
  refine ((finds_documentsOf .agent).bind fun agents => (finds_documentsOf .recipe).bind
    fun recipes => Finds.forM_keeps fun entry _ => hrecipe agents entry).mono ?_
  rintro c _ c' ⟨_, _, ⟨rfl, rfl⟩, _, _, ⟨rfl, rfl⟩, hall, hkeeps⟩
  exact ⟨hkeeps, hall⟩

/-! ## Projects and references -/

theorem finds_checkList (documents : Documents) (location kind : String) (path : Path)
    (aiTools : Value) (name : String) :
    Finds strict (checkList documents location kind path aiTools name) fun c _ c' =>
      Keeps c c' := by
  unfold checkList
  have href (ref : Value) : Finds strict (do
      if !(← (refersTo documents ref : Attempt Bool)) then
        let shown ← (ref.shown : Attempt String)
        addWarning .missingReference (location ++ " ai_tools." ++ name)
          (missingText kind shown) (missingFix kind) path) fun c _ c' => True ∧ Keeps c c' := by
    refine ((Finds.attempt _).bind (R := fun _ c _ c' => Keeps c c') fun found =>
      Finds.ite (fun _ => ((Finds.attempt _).bind fun shown =>
        finds_addWarning _ _ _ _ _).mono ?_) fun _ => Finds.nothing).mono ?_
    · rintro c _ c' ⟨shown, _, ⟨-, rfl⟩, -, hkeeps⟩
      exact hkeeps
    · rintro c _ c' ⟨found, _, ⟨-, rfl⟩, hkeeps⟩
      exact ⟨trivial, hkeeps⟩
  refine ((Finds.attempt _).bind fun refs => Finds.forM_keeps fun ref _ => href ref).mono ?_
  rintro c _ c' ⟨refs, _, ⟨-, rfl⟩, -, hkeeps⟩
  exact hkeeps

theorem finds_checkProjects : Finds strict checkProjects fun c _ c' => Keeps c c' := by
  unfold checkProjects
  have hkind (entry : String × Document) (aiTools : Value) (listed : Category × ManifestKind) :
      Finds strict (do
        let documents ← documentsOf listed.2
        (listNames listed.1).forM (checkList documents ("project:" ++ entry.1) listed.2.name
          entry.2.path aiTools)) fun c _ c' => True ∧ Keeps c c' := by
    refine ((finds_documentsOf listed.2).bind fun documents => Finds.forM_keeps
      (P := fun _ => True) fun name _ => (finds_checkList _ _ _ _ _ name).mono
        fun _ _ _ h => ⟨trivial, h⟩).mono ?_
    rintro c _ c' ⟨_, _, ⟨-, rfl⟩, h⟩
    exact ⟨trivial, h.2⟩
  have hproject (entry : String × Document) : Finds strict (do
      let location := "project:" ++ entry.1
      let aiTools := (field entry.2.value "ai_tools").orElse (.mapping [])
      if aiTools.isMapping then
        let conflicts ← (listConflicts aiTools : Attempt (List Category))
        conflicts.forM (checkConflict location entry.2.path)
        listedKinds.forM fun listed => do
          let documents ← documentsOf listed.2
          (listNames listed.1).forM
            (checkList documents location listed.2.name entry.2.path aiTools))
        fun c _ c' => True ∧ Keeps c c' := by
    refine Finds.ite (fun _ => ((Finds.attempt _).bind fun conflicts => (Finds.forM_keeps
      (P := fun _ => True) fun category _ => (finds_addError _ _ _ _ _).mono
        fun _ _ _ h => h.elim).bind fun _ => Finds.forM_keeps fun listed _ =>
          hkind entry _ listed).mono ?_) fun _ => Finds.nothing.mono fun _ _ _ h => ⟨trivial, h⟩
    rintro c _ c' ⟨_, _, ⟨-, rfl⟩, _, _, ⟨-, hkeeps⟩, -, hkeeps'⟩
    exact ⟨trivial, hkeeps.trans hkeeps'⟩
  refine ((finds_documentsOf .project).bind fun projects =>
    Finds.forM_keeps fun entry _ => hproject entry).mono ?_
  rintro c _ c' ⟨_, _, ⟨-, rfl⟩, -, hkeeps⟩
  exact hkeeps

theorem finds_checkReferences :
    Finds strict checkReferences fun c _ c' => Keeps c c' ∧ ∀ reference ∈ c.references,
      reference.recipe.isGiven = true → Known (c.documents .recipe) reference.recipe := by
  unfold checkReferences
  refine ((finds_documentsOf .recipe).bind fun recipes => Finds.get.bind fun found =>
    Finds.forM_keeps (P := fun reference : FeatureReference => reference.recipe.isGiven = true →
      Known recipes reference.recipe) fun reference _ => Finds.ite (fun _ =>
        (finds_requireKnown recipes _ _ _ _).mono ?_) fun hno => Finds.nothing.mono
          fun _ _ _ h => ⟨fun hgiven => absurd hgiven hno, h⟩).mono ?_
  · rintro c _ c' ⟨hknown, hkeeps⟩
    exact ⟨fun _ => hknown, hkeeps⟩
  · rintro c _ c' ⟨_, _, ⟨rfl, rfl⟩, _, _, ⟨rfl, rfl⟩, hall, hkeeps⟩
    exact ⟨hkeeps, hall⟩

/-! ## The whole check -/

/-- The inheritance of some rulepacks, all of whose parents are there. -/
def Inherits (documents : Documents) (graph : Graph) : Prop :=
  List.Forall₂ (fun entry node => node.1 = entry.1 ∧ parentsOf entry.2.value = .ok node.2 ∧
    ∀ parent ∈ node.2, knows documents parent = true) documents graph

/-- What is known of the documents of a repository without errors. -/
structure Checked (strict : Prop) (c : Check) : Prop where
  rulepacks : ∃ graph : Graph, Inherits (c.documents .rulepack) graph ∧
    (strict → ∀ cycle ∈ graph.cycles, (c.documents .rulepack).lookup (cycle.headD "") = none)
  agents : ∀ entry ∈ c.documents .agent,
    MembersKnown (c.documents .rulepack) entry.2.value "rulepacks"
  recipes : ∀ entry ∈ c.documents .recipe, RecipeKnown (c.documents .agent) entry.2.value
  references : ∀ reference ∈ c.references, reference.recipe.isGiven = true →
    Known (c.documents .recipe) reference.recipe

theorem finds_checkAll {tree : Tree} {settings : Settings} (proper : tree.ProperDocuments)
    (known : Option (List String)) :
    Finds strict (checkAll tree settings known) fun c _ _ => (∀ kind, c.documents kind = []) →
      ∃ c, Collected tree settings c ∧ Checked strict c := by
  refine ((finds_collect proper known).bind fun _ => finds_checkRulepacks.bind fun _ =>
    finds_checkAgents.bind fun _ => (finds_checkRecipes known).bind fun _ =>
      finds_checkProjects.bind fun _ => finds_checkReferences).mono ?_
  rintro c _ c' ⟨_, c₁, hcollected, _, c₂, ⟨hkeeps₂, hrulepacks⟩, _, c₃, ⟨hkeeps₃, hagents⟩, _, c₄,
    ⟨hkeeps₄, hrecipes⟩, _, c₅, hkeeps₅, -, hreferences⟩ hstart
  rw [hkeeps₂.1] at hagents
  rw [hkeeps₃.1, hkeeps₂.1] at hrecipes
  rw [hkeeps₅.1, hkeeps₄.1, hkeeps₃.1, hkeeps₂.1, hkeeps₅.2, hkeeps₄.2, hkeeps₃.2, hkeeps₂.2]
    at hreferences
  exact ⟨c₁, hcollected hstart, hrulepacks, hagents, hrecipes, hreferences⟩

end Playbook.Validation

namespace Playbook

open Validation

/-- What a report without errors tells of a repository. -/
theorem validate_passed {tree : Tree} {settings : Settings} {known : Option (List String)}
    {report : Report} (proper : tree.ProperDocuments)
    (h : validate tree settings known = .ok report) (herrors : report.errors = []) :
    ∃ c, Collected tree settings c ∧ Checked (report.warnings = []) c := by
  obtain ⟨⟨_, c⟩, hrun, h⟩ := Attempt.of_bind_ok h
  cases h
  exact (finds_checkAll proper known _ _ c hrun ⟨herrors, id⟩).2 fun _ => rfl

end Playbook
