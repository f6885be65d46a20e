import Playbook.Proofs.Generation.Benches
import Playbook.Proofs.Generation.Writing
import Playbook.Proofs.Generation.Places
import Playbook.Proofs.Store.Faults

/-!
# Why generating fails

Of the faults in finding a manifest or a tool, generating scripts has only that
of a tool without a backend, which it meets before it does anything for the
tool. Any other fault lies in a value or a file.
-/

namespace Playbook

open Work
open Fault (IsLocal)

/-! ## Registries -/

namespace Registry

/-- Every backend is held under its own id. -/
def Keyed (registry : Registry) : Prop := ∀ entry ∈ registry, entry.2.id = entry.1

theorem keyed_ofBackends (backends : List Backend) : (ofBackends backends).Keyed := by
  intro entry hentry
  obtain ⟨backend, -, rfl⟩ := List.mem_map.1 hentry
  rfl

theorem Keyed.register {registry other : Registry} {backend : Backend} {replace : Bool}
    (keyed : registry.Keyed) (h : registry.register backend replace = .ok other) :
    other.Keyed := by
  unfold Registry.register at h
  split at h
  · split at h
    · cases h
      intro entry hentry
      obtain ⟨old, hold, rfl⟩ := List.mem_map.1 hentry
      split
      · case isTrue hid => exact (eq_of_beq hid).symm
      · exact keyed old hold
    · cases h
  · cases h
    intro entry hentry
    rcases List.mem_append.1 hentry with hentry | hentry
    · exact keyed entry hentry
    · rw [List.mem_singleton.1 hentry]

theorem Keyed.find?_id {registry : Registry} (keyed : registry.Keyed) {name : String}
    {backend : Backend} (h : registry.find? name = some backend) :
    registry.find? backend.id = some backend := by
  obtain ⟨before, after, heq, -⟩ := List.lookup_eq_some_iff.1 h
  have hid := keyed (name, backend) (by simp [heq])
  rw [hid, h]

theorem isLocal_findNamed? (registry : Registry) (tool : Value) :
    FailsBy IsLocal (registry.findNamed? tool) := by
  unfold findNamed?
  split
  · exact .ok _
  · exact .ite (.ok _) (FailsBy.error_iff.2 rfl)

/-- A tool has a backend, or the fault says that it has none, or it cannot even be a name. -/
theorem getNamed_cases (registry : Registry) (tool : Value) :
    FailsBy (fun fault => IsLocal fault ∨ ∃ name, fault = .unknownTool name registry.ids)
      (registry.getNamed tool) := by
  unfold getNamed
  split
  · unfold get
    split
    · exact .ok _
    · exact FailsBy.error_iff.2 (.inr ⟨_, rfl⟩)
  · refine .ite ?_ (FailsBy.error_iff.2 (.inl rfl))
    exact (tool.isLocal_shown.mono fun _ => .inl).bind fun _ => FailsBy.error_iff.2 (.inr ⟨_, rfl⟩)

end Registry

/-! ## Writing -/

namespace Tree

theorem isLocal_settled (tree : Tree) (current path : Path) (trouble : FileTrouble) :
    FailsBy IsLocal (tree.settled current path trouble) := by
  unfold settled
  split
  · exact .ok _
  · exact FailsBy.error_iff.2 rfl

theorem isLocal_makeDirectories (tree : Tree) (current path : Path) :
    FailsBy IsLocal (tree.makeDirectories current path).2 := by
  fun_induction makeDirectories tree current path with
  | case1 => exact .ok _
  | case2 => exact FailsBy.error_iff.2 rfl
  | case3 path _ _ made fault heq ih =>
      rw [heq] at ih
      exact ih
  | case4 => exact .ok _
  | case5 => exact isLocal_settled _ _ _ _
  | case6 => exact isLocal_settled _ _ _ _

theorem isLocal_writeScript (tree : Tree) (current path : Path) (text : String) :
    FailsBy IsLocal (tree.writeScript current path text).2 := by
  have hput (made : Tree) : FailsBy IsLocal (made.putScript current path text) := by
    unfold putScript
    refine .ite (FailsBy.error_iff.2 rfl) ?_
    split <;> first | exact .ok _ | exact FailsBy.error_iff.2 rfl
  have hmade := tree.isLocal_makeDirectories current path.parent
  unfold writeScript
  split
  · exact FailsBy.error_iff.2 rfl
  · split
    · rename_i made fault heq
      rw [heq] at hmade
      exact hmade
    · split
      · exact .ok _
      · rename_i made _ _ fault heq
        exact FailsBy.error_iff.2 (hput made fault heq)

end Tree

/-! ## Benches -/

theorem Store.isLocal_agentShelf (store : Store) : FailsBy IsLocal store.agentShelf.outcome := by
  unfold agentShelf
  dsimp only
  split
  · exact .ok _
  · exact store.isLocal_readAgents.map _

theorem Store.locally_admissions {J : Option (Collection.Items Agent) → Tree → Settings → Prop} :
    Locally J admissions :=
  Work.Fails.bind locally_promptPaths fun _ => .pure _

namespace Bench

variable {α : Type}

/-- Agents are held only where they are read. -/
def Settled (bench : Bench) : Prop := bench.cache ≠ [] → bench.store.agents.isSome = true

theorem Settled.steady {bench : Bench} (settled : bench.Settled) :
    bench.run.agents.Steady bench.store.agentShelf.outcome := by
  refine ⟨rfl, fun hheld => ?_⟩
  obtain ⟨found, hfound⟩ := Option.isSome_iff_exists.1 (settled hheld)
  exact ⟨_, by rw [run, Store.agentShelf, hfound]⟩

theorem fails_inStore {work : Work Store α} (h : ∀ held : Prop,
      Store.Locally (fun agents _ _ => held → agents.isSome = true) work) :
    Work.Fails IsLocal Settled (inStore work) :=
  Work.Fails.within (fun bench _ => h (bench.cache ≠ [])) (fun _ hs => hs) fun _ _ _ ht => ht

theorem fails_fresh {work : Work Bench α} (h : Work.Fails IsLocal Settled work) :
    Work.Fails IsLocal (fun _ => True) (fresh work) := by
  have hadmissions : Work.Fails IsLocal (fun _ => True) Store.admissions :=
    Store.locally_admissions (J := fun _ _ _ => True)
  exact hadmissions.bind fun admissions =>
    Work.Fails.within (fun _ _ => h) (fun _ _ hheld => absurd rfl hheld) fun _ _ _ _ => trivial

end Bench

namespace Order

variable {order : Order}

theorem isLocal_outputDir (settings : Settings) (backend : Backend) :
    FailsBy IsLocal (order.outputDir settings backend) := by
  unfold outputDir
  split
  · exact .ok _
  · exact FailsBy.error_iff.2 rfl

theorem fails_write (held : Prop) (path : Path) (text : String) :
    Store.Locally (fun agents _ _ => held → agents.isSome = true) (write path text) := by
  unfold write
  refine .get fun store hstore => ?_
  refine Work.Fails.bind (.setState hstore) fun _ => ?_
  exact Work.Fails.bind (.attempt (Tree.isLocal_writeScript _ _ _ _)) fun _ => .tell _

/-- That a recipe cannot be compiled is no fault of generating. -/
theorem fails_compile (feature : Option Feature) (recipe : Recipe) {backend : Backend}
    (hfind : order.registry.find? backend.id = some backend) :
    Work.Fails IsLocal Bench.Settled (order.compile feature recipe backend.id) := by
  unfold compile
  refine Work.Fails.state.bind fun bench => ?_
  have hnamed : order.registry.getNamed (.text backend.id) = .ok backend := by
    rw [Registry.getNamed, Registry.get, hfind]
  have hrun : Work.Fails (fun fault => IsLocal fault ∨ ∃ id reason, fault = .uncompilable id reason)
      Bench.Settled (Bench.inRun ((order.setting bench.store.settings feature).compile recipe
        (.text backend.id) order.time)) := by
    refine Work.Fails.within
      (J := fun bench run => run.agents.Steady bench.store.agentShelf.outcome)
      (fun bench _ => ?_) (fun _ settled => settled.steady) fun bench run _ steady hheld => ?_
    · refine Setting.fails_compile (fun _ => .inl)
        ((Store.isLocal_agentShelf bench.store).mono fun _ => .inl)
        (fun _ id reason => .inr ⟨id, reason, rfl⟩) ?_ order.time
      change FailsBy _ (order.registry.getNamed (.text backend.id))
      rw [hnamed]
      exact .ok _
    · exact (Store.agentShelf_keepAgents steady.outcome).2 (steady.read hheld)
  refine hrun.caught fun result hresult => ?_
  split
  · exact .pure _
  · exact .pure _
  · rename_i fault hother
    refine .throw ((hresult fault rfl).resolve_right ?_)
    rintro ⟨id, reason, rfl⟩
    exact hother id reason rfl

/-! ## Recipes and features -/

theorem fails_recipe {backend : Backend} (hfind : order.registry.find? backend.id = some backend)
    (directory : Path) (id : Value) :
    Work.Fails IsLocal Bench.Settled (order.recipe backend directory id) := by
  have hadmits : Work.Fails IsLocal Bench.Settled
      (Bench.inAdmissions (Admissions.admits .recipes id (some order.project))) :=
    Work.Fails.within (fun _ _ => Admissions.fails_admits (fun _ h => h) _ _ _)
      (fun _ _ => trivial) fun _ _ settled _ => settled
  unfold recipe
  refine (Bench.fails_inStore fun _ => Store.locally_getRecipe id).bind fun found => ?_
  cases found with
  | none => exact .throw rfl
  | some recipe =>
      refine .ite (fun _ => .pure _) fun _ => hadmits.bind fun admitted => ?_
      refine .ite (fun _ => (Work.Fails.tell _).bind fun _ => .pure _) fun _ => ?_
      unfold recipeScript
      refine (fails_compile none recipe hfind).bind fun result => ?_
      cases result with
      | error fault =>
          refine (Bench.fails_inStore fun _ => Store.locally_recipePath id).bind fun place => ?_
          exact (Work.Fails.tell _).bind fun _ => .pure _
      | ok text =>
          exact (Bench.fails_inStore fun held => fails_write held _ text).bind fun _ => .pure _

/-- A tool without a backend is met before anything is done for it. -/
theorem fails_recipes (keyed : order.registry.Keyed) (tool : Value) :
    Work.Fails (fun fault => IsLocal fault ∨ order.registry.getNamed tool = .error fault)
      (fun _ => True) (order.recipes tool) := by
  unfold recipes
  refine .given (fun _ => .inr) fun backend hbackend => ?_
  obtain ⟨name, rfl, hfind⟩ := Registry.of_getNamed_ok hbackend
  refine Work.Fails.mono ?_ fun _ => .inl
  refine Work.Fails.state.bind fun store => ?_
  refine Work.Fails.bind (.attempt (store.settings.isLocal_dirPath _)) fun source => ?_
  refine Work.Fails.bind (.attempt (store.tree.isLocal_isDirectory source)) fun there => ?_
  refine .ite (fun _ => (Work.Fails.tell _).bind fun _ => .pure _) fun _ => Bench.fails_fresh ?_
  refine Work.Fails.bind (.attempt (isLocal_outputDir _ _)) fun directory => ?_
  refine (Bench.fails_inStore fun _ => Store.locally_listRecipes).bind fun ids => ?_
  exact .foldlM (fun _ id _ => (fails_recipe (keyed.find?_id hfind) directory id).bind
    fun _ => .pure _) _

theorem isLocal_featureUnit (feature : Feature) : FailsBy IsLocal (featureUnit feature) :=
  feature.id.isLocal_shown.bind fun _ => .ok _

theorem fails_featureScripts (keyed : order.registry.Keyed) (wanted : List Value)
    (feature : Feature) (recipe : Recipe) (tools : List Value) (done : Generation) :
    Work.Fails IsLocal Bench.Settled (order.featureScripts wanted feature recipe tools done) := by
  induction tools generalizing done with
  | nil => exact .pure done
  | cons tool tools ih =>
      unfold featureScripts
      refine .narrowed rfl (ih done) (.given (Registry.isLocal_findNamed? _ _) fun found hfound => ?_)
      cases found with
      | none =>
          refine (Work.Fails.tell _).bind fun _ => ?_
          refine Work.Fails.bind (.attempt (isLocal_featureUnit feature)) fun unit => ?_
          exact Work.Fails.bind (.attempt tool.isLocal_shown) fun _ => ih _
      | some backend =>
          obtain ⟨name, rfl, hfind⟩ := Registry.of_findNamed?_ok hfound
          refine (fails_compile (some feature) recipe (keyed.find?_id hfind)).bind fun result => ?_
          cases result with
          | error fault =>
              refine (Work.Fails.tell _).bind fun _ => ?_
              exact Work.Fails.bind (.attempt (isLocal_featureUnit feature)) fun _ => .pure _
          | ok text =>
              refine Work.Fails.state.bind fun bench => ?_
              refine Work.Fails.bind (.attempt (isLocal_outputDir _ _)) fun directory => ?_
              exact (Bench.fails_inStore fun held => fails_write held _ text).bind fun _ => ih _

theorem fails_feature (keyed : order.registry.Keyed) (wanted : List Value) (feature : Feature) :
    Work.Fails IsLocal Bench.Settled (order.feature wanted feature) := by
  unfold Order.feature
  split
  · exact .pure _
  · rename_i binding _
    refine (Bench.fails_inStore fun _ => Store.locally_getRecipe binding.id).bind fun found => ?_
    cases found with
    | none =>
        refine (Work.Fails.tell _).bind fun _ => ?_
        refine Work.Fails.bind (.attempt (isLocal_featureUnit feature)) fun unit => ?_
        exact Work.Fails.bind (.attempt binding.id.isLocal_shown) fun _ => .pure _
    | some recipe =>
        refine Work.Fails.bind (.change fun _ _ hheld => absurd rfl hheld) fun _ => ?_
        exact Work.Fails.state.bind fun bench => fails_featureScripts keyed wanted feature recipe _ _

theorem fails_features (keyed : order.registry.Keyed) (wanted : List Value) :
    Work.Fails IsLocal (fun _ => True) (order.features wanted) := by
  have hrest : Work.Fails IsLocal Bench.Settled (do
      let features ← Bench.inStore (Store.loadFeatures order.project.id)
      features.foldlM (fun done feature => do
        return done.append (← order.feature wanted feature)) Generation.empty) := by
    refine (Bench.fails_inStore fun _ => Store.locally_loadFeatures _).bind fun features => ?_
    exact .foldlM (fun _ feature _ => (fails_feature keyed wanted feature).bind fun _ => .pure _) _
  unfold Order.features
  exact Bench.fails_fresh (.ite (fun _ => Work.Fails.bind (.throw rfl) fun _ => hrest)
    fun _ => hrest)

end Order

/-! ## Projects -/

/-- No tool without a backend. -/
def Fault.SparesTools (fault : Fault) : Prop :=
  ∀ tool available, fault ≠ .unknownTool tool available

theorem Fault.IsLocal.sparesTools {fault : Fault} (h : fault.IsLocal) : fault.SparesTools := by
  rintro tool available rfl
  cases h

namespace Store

/-- Loading a project changes nothing, and no tool is looked for. -/
theorem fails_loadProject (store : Store) (id : Value) :
    Work.Fails Fault.SparesTools (fun s => s = store) (loadProject id) := by
  have hlocal (fault : Fault) (h : IsLocal fault) : fault.SparesTools := h.sparesTools
  have habsent : Work.Fails Fault.SparesTools (fun s => s = store)
      (absent "Project" id (some "projects") : Work Store Project) := by
    unfold absent dirText
    refine Work.Fails.bind (Work.Fails.bind ?_ fun _ => .pure _) fun place => ?_
    · refine Work.Fails.state.bind fun s => ?_
      exact Work.Fails.bind (.attempt ((Settings.isLocal_dirPath _ _).mono hlocal)) fun _ => .pure _
    · exact Work.Fails.bind (.attempt (id.isLocal_shown.mono hlocal)) fun _ => .throw nofun
  unfold loadProject
  refine ((fails_findProjectDir id).mono hlocal).bind fun found => ?_
  cases found with
  | none => exact habsent
  | some dir =>
      refine Work.Fails.state.bind fun s => ?_
      refine Work.Fails.bind (.attempt ((Manifests.isLocal_firstFile? _ _ _).mono hlocal))
        fun file => ?_
      cases file with
      | none => exact habsent
      | some path =>
          have hload : FailsBy Fault.SparesTools (Manifests.load s.tree path) := by
            unfold Manifests.load
            refine ((Manifests.isLocal_document _ _).mono hlocal).bind fun found => ?_
            split
            · exact .ok _
            · exact FailsBy.error_iff.2 nofun
          refine Work.Fails.bind (.attempt hload) fun document => .attempt ?_
          -- an unknown tool would be a fault in the content of the file
          unfold unloadableIfContent
          split
          · rename_i fault _
            split
            · exact FailsBy.error_iff.2 nofun
            · case isFalse hnot =>
              refine FailsBy.error_iff.2 ?_
              rintro tool available rfl
              exact hnot rfl
          · exact .ok _

end Store

end Playbook
