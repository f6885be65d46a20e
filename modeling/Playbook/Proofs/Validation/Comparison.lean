import Playbook.Proofs.Validation.Rejection
import Playbook.Proofs.Validation.Settling

/-!
# Comparing manifests

When the manifests of a repository are checked against each other, lists are
gone through and their members are looked up. This comes to an end exactly if
all of them are lists of possible keys, or nothing that is looked at.
-/

namespace Playbook.Validation

variable {c : Check} {known : Option (List String)}

/-- The members of a field can be gone through. -/
def Listable (v : Value) (name : String) : Prop := ∃ items, membersOf v name = .ok items

/-- They can also be looked up. -/
def Keyed (v : Value) (name : String) : Prop :=
  ∃ items, membersOf v name = .ok items ∧ ∀ x ∈ items, x.canBeKey = true

theorem wrongType_of_membersOf {v : Value} {name : String} {fault : Fault}
    (h : membersOf v name = .error fault) : fault = .wrongType := by
  rw [membersOf, Value.members] at h
  split at h <;> cases h
  rfl

/-! ## References -/

theorem exists_refersTo (documents : Documents) (ref : Value) :
    (∃ found, refersTo documents ref = .ok found ∧ True) ↔ ref.canBeKey = true := by
  rw [refersTo]
  split <;> simp_all

theorem wrongType_of_refersTo {documents : Documents} {ref : Value} {fault : Fault}
    (h : refersTo documents ref = .error fault) : fault = .wrongType := by
  rw [refersTo] at h
  split at h <;> cases h
  rfl

theorem settles_requireKnown (documents : Documents) (location kind : String) (path : Path)
    {ref : Value} (short : ref.Short) (c : Check) :
    Settles c (requireKnown documents location kind path ref) (ref.canBeKey = true)
      fun _ c' => Later c c' := by
  unfold requireKnown
  exact (Settles.attempts (P := fun _ => True) (fun _ => wrongType_of_refersTo) fun found _ =>
    (Settles.onlyIf fun _ => Settles.attempt short.shown
      (settles_error _ _ _ _ _)).iff (by simp)).iff (exists_refersTo documents ref)

/-- The tools of a list can be looked up among those that are known. -/
def ToolsKeyed (known : Option (List String)) (tools : Value) : Prop :=
  known.isSome = true → ∀ items, tools.opened = .list items → ∀ x ∈ items, x.canBeKey = true

theorem settles_unknownTool (names : List String) (location : String) (path : Path) {tool : Value}
    (short : tool.Short) (c : Check) :
    Settles c (unknownTool names location path tool) (tool.canBeKey = true)
      fun _ c' => Later c c' := by
  unfold unknownTool
  refine (Settles.guarded (Settles.onlyIf fun _ => Settles.attempt short.shown
    (settles_error _ _ _ _ _))).iff (by simp)

theorem settles_checkTools (known : Option (List String)) (location : String) {tools : Value}
    (path : Path) (short : tools.Short) (c : Check) :
    Settles c (checkTools known location tools path) (ToolsKeyed known tools)
      fun _ c' => Later c c' := by
  unfold checkTools
  split
  · rename_i names items hitems
    have hshort := Value.hereditary_short.item short hitems
    refine (Settles.forM_later (fun x hx c => settles_unknownTool names location path
      (hshort x hx) c) c).iff ?_
    simp [ToolsKeyed, hitems]
  · rename_i hnone
    refine (Settles.result ()).iff (iff_of_true trivial ?_)
    intro hknown items hitems
    obtain ⟨names, rfl⟩ := Option.isSome_iff_exists.1 hknown
    exact absurd hitems (hnone names items rfl)

/-! ## Rulepacks and agents -/

/-- The documents of a check can be shown. -/
def ShortDocuments (documents : Documents) : Prop := ∀ entry ∈ documents, entry.2.value.Short

theorem settles_checkRulepacks (c : Check) :
    Settles c checkRulepacks (∀ entry ∈ c.documents .rulepack, Listable entry.2.value "extends")
      fun _ c' => Later c c' := by
  have hparents (v : Value) : (∃ parents, parentsOf v = .ok parents ∧ True) ↔
      Listable v "extends" := by
    rw [parentsOf, Listable]
    cases membersOf v "extends" with
    | error fault => exact iff_of_false (by rintro ⟨_, h, -⟩; cases h) (by rintro ⟨_, h⟩; cases h)
    | ok items => exact iff_of_true ⟨_, rfl, trivial⟩ ⟨_, rfl⟩
  have hfault (v : Value) (fault : Fault) (h : parentsOf v = .error fault) :
      fault = .wrongType := by
    cases hitems : membersOf v "extends" with
    | error other =>
        rw [parentsOf, hitems] at h
        cases h
        exact wrongType_of_membersOf hitems
    | ok items =>
        rw [parentsOf, hitems] at h
        cases h
  have hentry (documents : Documents) (entry : String × Document) (c : Check) :
      Settles c (do
        let parents ← (parentsOf entry.2.value : Attempt (List String))
        parents.forM fun parent => do
          if !knows documents parent then
            missing ("rulepack:" ++ entry.1) "rulepack" parent entry.2.path
        return (entry.1, parents)) (Listable entry.2.value "extends") fun _ c' => Later c c' := by
    have hmissing (parents : List String) := Settles.forM_later (P := fun _ => True) (l := parents)
      (fun parent _ c => (Settles.onlyIf (b := (!knows documents parent) = true) fun _ =>
        settles_error .missingReference ("rulepack:" ++ entry.1) (missingText "rulepack" parent)
          (missingFix "rulepack") entry.2.path).iff (by simp)) c
    exact (Settles.attempts (P := fun _ => True) (hfault _) fun parents _ =>
      ((hmissing parents).iff (by simp)).andThen_later fun _ _ => Settles.result _).iff
        (hparents _)
  refine Settles.documentsOf ?_
  generalize c.documents .rulepack = documents
  refine ((Settles.mapM_later (fun entry _ c => hentry documents entry c) c).bind_later
    fun graph c' => (Settles.forM_later (P := fun _ => True) (fun cycle _ c => ?_) c').iff
      (S := True) (by simp)).iff (by simp)
  dsimp only
  cases documents.lookup (cycle.headD "") with
  | none => exact Settles.result ()
  | some document => exact settles_addWarning _ _ _ _ _

theorem settles_checkAgents (short : ShortDocuments (c.documents .agent)) :
    Settles c checkAgents (∀ entry ∈ c.documents .agent, Keyed entry.2.value "rulepacks")
      fun _ c' => Later c c' := by
  unfold checkAgents
  refine Settles.documentsOf (Settles.documentsOf ?_)
  refine Settles.forM_later (fun entry hentry c => ?_) c
  refine Settles.attempts (P := fun items => ∀ x ∈ items, x.canBeKey = true)
    (fun _ => wrongType_of_membersOf) fun items hitems => ?_
  exact Settles.forM_later (fun ref href c => settles_requireKnown _ _ _ _
    ((short entry hentry).membersOf hitems ref href) c) c

/-! ## Recipes -/

/-- The id of a step can be looked up, and so can its agent if it has one. -/
def StepKeyed (v : Value) : Prop :=
  (field v "id").canBeKey = true ∧
    ((field v "agent").isGiven = true → (field v "agent").canBeKey = true)

structure RecipeComparable (known : Option (List String)) (v : Value) : Prop where
  steps : ∃ members, membersOf v "steps" = .ok members ∧
    ∀ x ∈ members, x.isMapping = true → StepKeyed x
  loop : (field v "loop").isMapping = true → Keyed (field v "loop") "steps"
  tools : ToolsKeyed known (field v "tools")

theorem settles_checkStep (agents : Documents) (location : String) (path : Path)
    (seen : List Value) (entry : Value × Nat) (short : entry.1.Short) (c : Check) :
    Settles c (checkStep agents location path seen entry) (StepKeyed entry.1)
      fun _ c' => Later c c' := by
  have hagent (place : String) (c : Check) : Settles c (do
      if (field entry.1 "agent").isGiven then
        requireKnown agents place "agent" path (field entry.1 "agent")
      return seen ++ [field entry.1 "id"])
      ((field entry.1 "agent").isGiven = true → (field entry.1 "agent").canBeKey = true)
      fun _ c' => Later c c' := by
    exact (Settles.ite (fun _ => (settles_requireKnown agents place "agent" path
      (short.field "agent") c).bind_later fun _ _ => Settles.result _)
        fun _ => Settles.result _).iff (by simp)
  unfold checkStep
  refine Settles.guarded (Settles.either (fun _ => ?_) fun _ => hagent _ c)
  exact Settles.attempt (short.field "id").shown
    ((settles_error _ _ _ _ _).andThen_later fun _ c' => hagent _ c')

theorem settles_checkLoop (location : String) (path : Path) (ids : List Value) {loop : Value}
    (short : loop.Short) (c : Check) :
    Settles c (checkLoop location path ids loop) (loop.isMapping = true → Keyed loop "steps")
      fun _ c' => Later c c' := by
  unfold checkLoop
  refine Settles.onlyIf fun _ => Settles.attempts (fun _ => wrongType_of_membersOf)
    fun refs hrefs => Settles.forM_later (fun ref href c => ?_) c
  have hshown := (short.membersOf hrefs ref href).shown
  exact (Settles.guarded (Settles.onlyIf fun _ => Settles.attempt hshown
    (settles_error _ _ _ _ _))).iff (by simp)

theorem settles_checkSteps (agents : Documents) (location : String) (path : Path)
    {members : List Value} (short : ∀ x ∈ members, x.Short) (c : Check) :
    Settles c ((members.filter (·.isMapping)).zipIdx.foldlM (checkStep agents location path) [])
      (∀ x ∈ members, x.isMapping = true → StepKeyed x) fun _ c' => Later c c' := by
  refine (Settles.foldlM_later (P := fun entry => StepKeyed entry.1) (fun entry hentry seen c =>
    settles_checkStep agents location path seen entry ?_ c) [] c).iff ?_
  · exact short _ (List.mem_of_mem_filter (List.fst_mem_of_mem_zipIdx hentry))
  · constructor
    · intro hall x hx hmapping
      have hkept : x ∈ members.filter (·.isMapping) := List.mem_filter.2 ⟨hx, hmapping⟩
      obtain ⟨index, hindex, hget⟩ := List.mem_iff_getElem.1 hkept
      exact hall (x, index) (List.mk_mem_zipIdx_iff_getElem?.2
        (List.getElem?_eq_some_iff.2 ⟨hindex, hget⟩))
    · intro hall entry hentry
      obtain ⟨hx, hmapping⟩ := List.mem_filter.1 (List.fst_mem_of_mem_zipIdx hentry)
      exact hall entry.1 hx hmapping

theorem settles_checkRecipe (known : Option (List String)) (agents : Documents)
    (entry : String × Document) (short : entry.2.value.Short) (c : Check) :
    Settles c (do
      let members ← (membersOf entry.2.value "steps" : Attempt (List Value))
      let steps := (members.filter (·.isMapping)).zipIdx
      let ids ← steps.foldlM (checkStep agents ("recipe:" ++ entry.1) entry.2.path) []
      checkLoop ("recipe:" ++ entry.1) entry.2.path ids (field entry.2.value "loop")
      checkTools known ("recipe:" ++ entry.1) (field entry.2.value "tools") entry.2.path)
      (RecipeComparable known entry.2.value) fun _ c' => Later c c' := by
  have hrest (ids : List Value) (c : Check) :
      Settles c (do
        checkLoop ("recipe:" ++ entry.1) entry.2.path ids (field entry.2.value "loop")
        checkTools known ("recipe:" ++ entry.1) (field entry.2.value "tools") entry.2.path)
        (((field entry.2.value "loop").isMapping = true →
          Keyed (field entry.2.value "loop") "steps") ∧
            ToolsKeyed known (field entry.2.value "tools")) fun _ c' => Later c c' :=
    (settles_checkLoop _ _ ids (short.field "loop") c).bind_later fun _ c' =>
      settles_checkTools known _ _ (short.field "tools") c'
  refine (Settles.attempts (fun _ => wrongType_of_membersOf) fun members hmembers =>
    (settles_checkSteps agents _ _ (short.membersOf hmembers) c).bind_later hrest).iff ?_
  constructor
  · rintro ⟨members, hmembers, hsteps, hloop, htools⟩
    exact ⟨⟨members, hmembers, hsteps⟩, hloop, htools⟩
  · rintro ⟨⟨members, hmembers, hsteps⟩, hloop, htools⟩
    exact ⟨members, hmembers, hsteps, hloop, htools⟩

theorem settles_checkRecipes (known : Option (List String))
    (short : ShortDocuments (c.documents .recipe)) :
    Settles c (checkRecipes known)
      (∀ entry ∈ c.documents .recipe, RecipeComparable known entry.2.value)
      fun _ c' => Later c c' := by
  unfold checkRecipes
  refine Settles.documentsOf (Settles.documentsOf ?_)
  exact Settles.forM_later (fun entry hentry c =>
    settles_checkRecipe known _ entry (short entry hentry) c) c

/-! ## Projects and features -/

/-- The lists of a project can be compared with what is there. -/
def ProjectComparable (v : Value) : Prop :=
  let aiTools := (field v "ai_tools").orElse (.mapping [])
  aiTools.isMapping = true → ∀ listed ∈ listedKinds, ∀ name ∈ listNames listed.1, Keyed aiTools name

theorem exists_opened {v : Value} (h : v.isMapping = true) : ∃ es, v.opened = .mapping es := by
  cases v with
  | mapping es => exact ⟨es, rfl⟩
  | cycle name content =>
      cases content with
      | mapping es => exact ⟨_, rfl⟩
      | _ => cases h
  | _ => cases h

theorem exists_listConflicts {aiTools : Value} (h : aiTools.isMapping = true) :
    ∃ conflicts, listConflicts aiTools = .ok conflicts := by
  obtain ⟨es, hes⟩ := exists_opened h
  have hentries : aiTools.entries = .ok es := by rw [Value.entries, hes]
  exact ⟨_, Attempt.bind_eq_of_ok hentries _⟩

theorem settles_checkList (documents : Documents) (location kind : String) (path : Path)
    {aiTools : Value} (name : String) (short : aiTools.Short) (c : Check) :
    Settles c (checkList documents location kind path aiTools name) (Keyed aiTools name)
      fun _ c' => Later c c' := by
  unfold checkList
  refine Settles.attempts (fun _ => wrongType_of_membersOf) fun refs hrefs =>
    Settles.forM_later (fun ref href c => ?_) c
  refine (Settles.attempts (P := fun _ => True) (fun _ => wrongType_of_refersTo) fun found _ =>
    (Settles.onlyIf fun _ => Settles.attempt (short.membersOf hrefs ref href).shown
      (settles_addWarning _ _ _ _ _)).iff (by simp)).iff (exists_refersTo documents ref)

theorem settles_checkLists (location : String) (path : Path) {aiTools : Value}
    (short : aiTools.Short) (c : Check) :
    Settles c (listedKinds.forM fun listed => do
      let documents ← documentsOf listed.2
      (listNames listed.1).forM (checkList documents location listed.2.name path aiTools))
      (∀ listed ∈ listedKinds, ∀ name ∈ listNames listed.1, Keyed aiTools name)
      fun _ c' => Later c c' :=
  Settles.forM_later (fun _ _ c => Settles.documentsOf
    (Settles.forM_later (fun name _ c => settles_checkList _ _ _ _ name short c) c)) c

theorem settles_checkConflicts (location : String) (path : Path) (conflicts : List Category)
    (c : Check) :
    Settles c (conflicts.forM (checkConflict location path)) True fun _ c' =>
      Later c c' ∧ (conflicts ≠ [] → Reported path c') :=
  settles_reports (fun _ _ => settles_addError _ _ _ _ _) c

theorem settles_checkProject (entry : String × Document) (short : entry.2.value.Short)
    (c : Check) :
    Settles c (do
      let aiTools := (field entry.2.value "ai_tools").orElse (.mapping [])
      if aiTools.isMapping then
        let conflicts ← (listConflicts aiTools : Attempt (List Category))
        conflicts.forM (checkConflict ("project:" ++ entry.1) entry.2.path)
        listedKinds.forM fun listed => do
          let documents ← documentsOf listed.2
          (listNames listed.1).forM (checkList documents ("project:" ++ entry.1) listed.2.name
            entry.2.path aiTools)) (ProjectComparable entry.2.value) fun _ c' =>
              Later c c' ∧ (Conflicted entry.2.value → Reported entry.2.path c') := by
  have hempty : (Value.mapping []).Short := trivial
  have hshort := (short.field "ai_tools").orElse hempty
  refine (Settles.ite (fun hmapping => ?_) fun hno => (Settles.pure ()).imp ?_).mono
    ⟨fun hP => hP.1, fun hP => ⟨hP, fun _ => trivial⟩⟩ fun _ _ h => h
  · obtain ⟨conflicts, hconflicts⟩ := exists_listConflicts hmapping
    refine Settles.attempt hconflicts ((settles_checkConflicts _ _ conflicts c).andThen
      fun _ c₁ h => (settles_checkLists _ _ hshort c₁).imp fun _ c' hlater =>
        ⟨h.1.trans hlater, ?_⟩)
    rintro ⟨-, found, hfound, hsome⟩
    cases hconflicts.symm.trans hfound
    exact (h.2 hsome).of_subset hlater.errors
  · rintro _ _ ⟨-, rfl⟩
    exact ⟨.refl _, fun h => absurd h.1 hno⟩

theorem settles_checkProjects (short : ShortDocuments (c.documents .project)) :
    Settles c checkProjects (∀ entry ∈ c.documents .project, ProjectComparable entry.2.value)
      fun _ c' => Later c c' ∧ ∀ entry ∈ c.documents .project,
        Conflicted entry.2.value → Reported entry.2.path c' := by
  unfold checkProjects
  refine Settles.documentsOf ?_
  exact Settles.forM (fun entry _ _ _ hlater h hconflicted =>
    (h hconflicted).of_subset hlater.errors)
    (fun entry hentry c => settles_checkProject entry (short entry hentry) c) c

theorem settles_checkReferences (short : ∀ reference ∈ c.references, reference.recipe.Short) :
    Settles c checkReferences (∀ reference ∈ c.references, reference.recipe.isGiven = true →
      reference.recipe.canBeKey = true) fun _ c' => Later c c' := by
  unfold checkReferences
  refine Settles.documentsOf ?_
  exact Settles.forM_later (l := c.references) (fun reference hreference c =>
    Settles.onlyIf fun _ => settles_requireKnown _ _ _ _ (short reference hreference) c) c

end Playbook.Validation
