import Playbook.CommandLine.Execution
import Playbook.Proofs.Generation.Writing
import Playbook.Proofs.Recipe.Faults
import Playbook.Proofs.Recipe.History
import Playbook.Proofs.Recipe.Parts

/-!
# Compilations on one bench

All recipes of a project are compiled on one bench, which reads the agents
once, before the first script is written. So each of them is compiled as if it
was the only one: with the text that it has alone, and without one only if it
has no steps.
-/

namespace Playbook

open Work
open Value (firsts addNew)

/-! ## Steps that are lowered -/

/-- A partition without a loop has all the steps in one group. -/
theorem Partition.eq_whole {recipe : Recipe} {partition : Partition} {reports : Log}
    (h : ofRecipe recipe = .ok (partition, reports)) (hbody : partition.loopBody = []) :
    partition = whole recipe.steps := by
  unfold ofRecipe at h
  cases hloop : recipe.loop with
  | none =>
      rw [hloop] at h
      cases h
      rfl
  | some loop =>
      have hpositions : indices recipe.steps loop.steps = recipe.positions := by
        rw [Recipe.positions, Recipe.loopNames, hloop]
        rfl
      simp only [hloop, hpositions] at h
      split at h
      · cases h
        rfl
      · split at h
        · cases h
        · split at h
          · cases h
            rfl
          · rename_i hsome
            cases h
            exact absurd hbody (ofPositions_loopBody_ne_nil (by simpa using hsome))

/-- Of a recipe with steps some step is lowered. -/
theorem Setting.agentOrder_ne_nil {recipe : Recipe} (hfilled : recipe.steps ≠ [])
    {partition : Partition} {reports : Log}
    (h : Partition.ofRecipe recipe = .ok (partition, reports)) : agentOrder recipe ≠ [] := by
  rw [agentOrder, h]
  dsimp only
  rw [ne_eq, List.map_eq_nil_iff]
  by_cases hbody : partition.loopBody = []
  · rw [Partition.eq_whole h hbody]
    simpa [Partition.whole] using hfilled
  · simp [hbody]

theorem Setting.exists_partition {setting : Setting} {recipe : Recipe} {tool : Value}
    {time text : String} {s s' : Run × Log}
    (h : exec (setting.compile recipe tool time) s = (.ok text, s')) :
    ∃ partition reports, Partition.ofRecipe recipe = .ok (partition, reports) := by
  obtain ⟨nodes, _, hscript, -⟩ := of_exec_bind_ok h
  obtain ⟨_, _, outline, -, -, fits⟩ := exists_outline hscript
  obtain ⟨reports, hpartition⟩ := fits.partition
  exact ⟨outline.partition, reports, hpartition⟩

theorem firsts_ne_nil {ids : List Value} (h : ids ≠ []) : firsts ids ≠ [] := by
  obtain ⟨front, last, rfl⟩ := List.eq_nil_or_concat ids |>.resolve_left h
  rw [List.concat_eq_append, Value.firsts_snoc, addNew]
  split
  · rename_i hany
    rintro hnil
    simp [hnil] at hany
  · simp

/-! ## Shelves -/

namespace Store

variable {store : Store} {shelf : Shelf Agent}

theorem tree_keepAgents (store : Store) (shelf : Shelf Agent) :
    (store.keepAgents shelf).tree = store.tree := by
  unfold keepAgents
  split <;> rfl

theorem settings_keepAgents (store : Store) (shelf : Shelf Agent) :
    (store.keepAgents shelf).settings = store.settings := by
  unfold keepAgents
  split <;> rfl

/-- Keeping a shelf that was read changes nothing of what the agents are. -/
theorem agentShelf_keepAgents (h : shelf.outcome = store.agentShelf.outcome) :
    (store.keepAgents shelf).agentShelf.outcome = store.agentShelf.outcome ∧
      ((∃ items, shelf = .ready items) → (store.keepAgents shelf).agents.isSome) := by
  cases hagents : store.agents with
  | some items =>
      have hkeep : store.keepAgents shelf = store := by
        unfold keepAgents
        rw [hagents]
      rw [hkeep]
      exact ⟨rfl, fun _ => by rw [hagents]; rfl⟩
  | none =>
      cases shelf with
      | unread log outcome =>
          have hkeep : store.keepAgents (.unread log outcome) = store := by
            unfold keepAgents
            rw [hagents]
          rw [hkeep]
          exact ⟨rfl, fun ⟨_, h⟩ => nomatch h⟩
      | ready items =>
          have hkeep : store.keepAgents (.ready items) =
              { store with agents := store.readAgents.2.toOption } := by
            unfold keepAgents
            rw [hagents]
          have houtcome : store.agentShelf.outcome = store.readAgents.2.map fun items =>
              items.map fun item => (item.1, item.2.2) := by
            rw [agentShelf, hagents]
            rfl
          rw [hkeep]
          rw [houtcome] at h ⊢
          cases hread : store.readAgents.2 with
          | error fault =>
              rw [hread] at h
              cases h
          | ok found => exact ⟨rfl, fun _ => rfl⟩

end Store

/-! ## Reading -/

namespace Store

variable {store : Store} {items : Collection.Items Recipe}

theorem exec_recipeItems_of_read (h : store.recipesRead = .ok items) (log : Log) :
    ∃ log', exec recipeItems (store, log) =
      (.ok items, { store with recipes := some items }, log') := by
  unfold recipesRead at h
  unfold recipeItems kept
  rw [exec_bind_ok (exec_state _ _)]
  dsimp only
  cases hrecipes : store.recipes with
  | some found =>
      rw [hrecipes] at h
      cases h
      refine ⟨log, ?_⟩
      simp only [exec_pure, ← hrecipes]
  | none =>
      rw [hrecipes] at h
      dsimp only at h ⊢
      rw [exec_bind_ok (exec_tell _ _ _), h]
      exact ⟨_, rfl⟩

theorem exec_getRecipe_of_read (h : store.recipesRead = .ok items) {id : Value}
    {found : Option (Path × Recipe)} (hfound : find? items id = .ok found) (log : Log) :
    ∃ log', exec (getRecipe id) (store, log) =
      (.ok (found.map (·.2)), { store with recipes := some items }, log') := by
  obtain ⟨log', hitems⟩ := exec_recipeItems_of_read h log
  refine ⟨log', ?_⟩
  unfold getRecipe
  rw [exec_bind_ok hitems, hfound]
  rfl

theorem of_exec_listRecipes_ok {ids : List Value} {log : Log} {s : Store × Log}
    (h : exec listRecipes (store, log) = (.ok ids, s)) :
    ∃ items log', store.recipesRead = .ok items ∧ Store.ids items = .ok ids ∧
      s = ({ store with recipes := some items }, log') := by
  obtain ⟨items, mid, hitems, h⟩ := of_exec_bind_ok h
  obtain ⟨hids, rfl⟩ := of_exec_attempt_ok h
  cases hread : store.recipesRead with
  | ok found =>
      obtain ⟨log', hexec⟩ := exec_recipeItems_of_read hread log
      rw [hexec] at hitems
      cases hitems
      exact ⟨_, log', rfl, hids, rfl⟩
  | error fault =>
      unfold recipesRead at hread
      unfold recipeItems kept at hitems
      rw [exec_bind_ok (exec_state _ _)] at hitems
      cases hrecipes : store.recipes with
      | some held =>
          rw [hrecipes] at hread
          cases hread
      | none =>
          rw [hrecipes] at hread
          dsimp only at hread hitems
          rw [hrecipes, exec_bind_ok (exec_tell _ _ _), hread] at hitems
          cases hitems

/-- What is let in depends on the prompts, and nothing but these is read. -/
theorem ends_admissions_eq :
    Ends (fun t => t = store) (fun _ t => ∃ prompts, t = { store with prompts }) admissions := by
  have hitems : Ends (fun t => t = store) (fun _ t => ∃ prompts, t = { store with prompts })
      promptItems := by
    unfold promptItems kept
    refine Ends.get ?_
    rintro store rfl
    split
    · refine Ends.pure ?_
      rintro _ rfl
      exact ⟨_, rfl⟩
    · refine (Ends.tell _).bind fun _ => Ends.attempt.bind fun items => ?_
      exact (Ends.setState ⟨some items, rfl⟩).bind fun _ => Ends.pure fun _ h => h
  unfold admissions promptPaths
  exact (hitems.bind fun items => Ends.pure fun _ h => h).bind fun paths => Ends.pure fun _ h => h

end Store

/-! ## Benches -/

/-- What a bench gives to a compilation. -/
def Bench.run (bench : Bench) : Run :=
  ⟨⟨bench.store.agentShelf, bench.cache⟩, bench.admissions⟩

/--
A bench in the course of generating scripts for a store with these recipes. It
has the agents of the store, and none is held before they were read.
-/
structure Bench.Follows (store : Store) (items : Collection.Items Recipe) (bench : Bench) :
    Prop where
  settings : bench.store.settings = store.settings
  recipes : bench.store.recipes = some items
  asked : ∃ asked, (lookups store.agentShelf.outcome).Holds asked bench.run
  read : bench.cache ≠ [] → bench.store.agents.isSome

variable {store : Store} {items : Collection.Items Recipe} {bench : Bench}

namespace Bench.Follows

theorem outcome (h : bench.Follows store items) :
    bench.store.agentShelf.outcome = store.agentShelf.outcome := by
  obtain ⟨asked, hasked⟩ := h.asked
  exact hasked.1

theorem steady (h : bench.Follows store items) :
    bench.run.agents.Steady store.agentShelf.outcome := by
  refine ⟨h.outcome, fun hheld => ?_⟩
  obtain ⟨found, hfound⟩ := Option.isSome_iff_exists.1 (h.read hheld)
  exact ⟨_, by rw [Bench.run, Store.agentShelf, hfound]⟩

/-- What a run leaves behind goes on with the store. -/
theorem keep (h : bench.Follows store items) {run : Run} {asked : List Value}
    (hasked : (lookups store.agentShelf.outcome).Holds asked run)
    (steady : run.agents.Steady store.agentShelf.outcome) :
    Bench.Follows store items
      ⟨bench.store.keepAgents run.agents.shelf, run.agents.cache, run.admissions⟩ := by
  obtain ⟨hshelf, hread⟩ := Store.agentShelf_keepAgents (hasked.1.trans h.outcome.symm)
  refine ⟨(Store.settings_keepAgents _ _).trans h.settings, ?_, ⟨asked, ?_⟩, fun hheld => ?_⟩
  · exact (Store.recipes_keepAgents _ _).trans h.recipes
  · exact ⟨hshelf.trans h.outcome, hasked.2⟩
  · exact hread (steady.read hheld)

/-- Once the agents are read, the files do not matter any more. -/
theorem withTree (h : bench.Follows store items) (hread : bench.store.agents.isSome)
    (tree : Tree) :
    Bench.Follows store items { bench with store := { bench.store with tree } } := by
  obtain ⟨found, hfound⟩ := Option.isSome_iff_exists.1 hread
  have hshelf : Store.agentShelf { bench.store with tree } = bench.store.agentShelf := by
    rw [Store.agentShelf, Store.agentShelf, hfound]
  obtain ⟨asked, hasked⟩ := h.asked
  refine ⟨h.settings, h.recipes, ⟨asked, ?_⟩, h.read⟩
  rwa [Bench.run, hshelf]

end Bench.Follows

namespace Order

variable (order : Order) {recipe : Recipe} {tool : String}

/-- What the compilation of a recipe gives when it is the only one. -/
def alone (store : Store) (recipe : Recipe) (tool : String) : Attempt String :=
  (((order.setting store.settings none).compile recipe (.text tool) order.time).runFrom
    ⟨⟨store.agentShelf, []⟩, ⟨[], []⟩⟩).1

/-- A recipe with steps has the text that it has alone, and one without steps has none. -/
def Answers (store : Store) (recipe : Recipe) (tool : String) : Except Fault String → Prop
  | .ok text => recipe.steps ≠ [] ∧ order.alone store recipe tool = .ok text
  | .error fault => recipe.steps = [] ∧ reasonOf fault = "recipe has no steps"

/-- A fault that aborts is passed on. -/
theorem throws_of_aborts {fault : Fault} (h : fault.Aborts) {s : Bench × Log}
    {result : Except Fault String} {s' : Bench × Log} :
    exec (match (Except.error fault : Attempt String) with
      | .ok text => return .ok text
      | .error (.uncompilable id reason) => return .error (.uncompilable id reason)
      | .error fault => throw fault : Work Bench (Except Fault String)) s ≠ (.ok result, s') := by
  split
  · rename_i heq
    cases heq
  · rename_i heq
    cases heq
    exact absurd rfl (h _ _)
  · nofun

theorem ends_compile_alone (hkeyed : KeyedAgents store.agentShelf.outcome)
    (aborts : store.agentShelf.outcome.Aborts)
    (hcanonical : ∀ step ∈ recipe.steps, step.agent.Canonical)
    (hbench : bench.Follows store items) :
    Ends (fun t => t = bench) (fun result t => order.Answers store recipe tool result ∧
        t.store.tree = bench.store.tree ∧ t.Follows store items ∧
          ((∃ text, result = .ok text) → t.store.agents.isSome))
      (order.compile none recipe tool) := by
  rintro bench log result t log' rfl hexec
  have hfresh : (lookups store.agentShelf.outcome).Holds []
      ⟨⟨store.agentShelf, []⟩, ⟨[], []⟩⟩ := ⟨rfl, rfl, nofun⟩
  obtain ⟨asked, hasked⟩ := hbench.asked
  obtain ⟨given, more, hrecords, -, hall⟩ :=
    @Setting.asks_compile _ (order.setting store.settings none) recipe hkeyed hcanonical
      (.text tool) order.time
  have halone : order.alone store recipe tool = given := hrecords.runFrom_eq hfresh
  obtain ⟨run, later, hcompile, hrun, -⟩ := hrecords asked bench.run log hasked
  have hcaught : exec (caught (Bench.inRun
      ((order.setting bench.store.settings none).compile recipe (.text tool) order.time)))
        (bench, log) = (.ok given,
          ⟨bench.store.keepAgents run.agents.shelf, run.agents.cache, run.admissions⟩,
          log ++ later) := by
    rw [exec_caught, Bench.inRun, exec_within, hbench.settings]
    exact hcompile ▸ rfl
  unfold compile at hexec
  rw [exec_bind_ok (exec_state _ _)] at hexec
  dsimp only at hexec
  rw [exec_bind_ok hcaught] at hexec
  by_cases hempty : recipe.steps = []
  · obtain ⟨fault, hfails, hfault⟩ := @Setting.exec_compile_of_empty
      (order.setting store.settings none) recipe hempty (.text tool) order.time (bench.run, log)
    rw [hcompile] at hfails
    obtain ⟨rfl, hstate⟩ := Prod.mk.inj hfails
    obtain ⟨rfl, -⟩ := Prod.mk.inj hstate
    rcases hfault with hlocal | ⟨id, rfl⟩
    · exact absurd hexec (throws_of_aborts hlocal.aborts)
    · cases hexec
      exact ⟨⟨hempty, rfl⟩, Store.tree_keepAgents _ _, hbench.keep hrun hbench.steady,
        nofun⟩
  · obtain ⟨hfaults, steady⟩ := Setting.aborts_compile aborts hempty (.text tool) order.time
      bench.run log hbench.steady
    rw [hcompile] at hfaults steady
    cases given with
    | error fault => exact absurd hexec (throws_of_aborts (hfaults fault rfl))
    | ok text =>
        cases hexec
        obtain ⟨partition, reports, hpartition⟩ := Setting.exists_partition hcompile
        have hheld : run.agents.cache ≠ [] := by
          intro hnone
          have hids := hrun.2.1
          rw [hall text rfl, hnone] at hids
          refine firsts_ne_nil ?_ hids.symm
          simp [Setting.agentOrder_ne_nil hempty hpartition]
        have hkept := hbench.keep hrun steady
        exact ⟨⟨hempty, halone⟩, Store.tree_keepAgents _ _, hkept, fun _ => hkept.read hheld⟩

/-! ## One recipe alone -/

/-- A compilation of its own gives the same text. -/
theorem compileText_eq (hregistry : order.registry = Registry.builtIn)
    (hkeyed : KeyedAgents store.agentShelf.outcome)
    (hcanonical : ∀ step ∈ recipe.steps, step.agent.Canonical)
    (hread : store.recipesRead = .ok items) {id : String} {path : Path}
    (hfound : Store.find? items (.text id) = .ok (some (path, recipe)))
    {admissions : Admissions} {s : Store × Log}
    (hadmissions : exec Store.admissions (store, []) = (.ok admissions, s)) :
    ((CommandLine.compileText (.text id) (.text tool) order.time (some order.project) none).runFrom
      store).1 = order.alone store recipe tool := by
  obtain ⟨mid, log⟩ := s
  obtain ⟨prompts, rfl⟩ := Store.ends_admissions_eq store [] admissions mid log rfl hadmissions
  have hread' : Store.recipesRead { store with prompts } = .ok items := hread
  obtain ⟨log', hget⟩ := Store.exec_getRecipe_of_read hread' hfound log
  have hload : exec (Bench.inStore (Store.loadRecipe (.text id)))
      (⟨{ store with prompts }, [], admissions⟩, log) =
        (.ok recipe, ⟨{ store with prompts, recipes := some items }, [], admissions⟩, log') := by
    rw [Bench.inStore, exec_within, Store.loadRecipe, exec_bind_ok hget]
    rfl
  have hsame (admissions : Admissions) : (lookups store.agentShelf.outcome).Holds []
      ⟨⟨store.agentShelf, []⟩, admissions⟩ := ⟨rfl, rfl, nofun⟩
  obtain ⟨given, more, hrecords, -⟩ :=
    @Setting.asks_compile _ (order.setting store.settings none) recipe hkeyed hcanonical
      (.text tool) order.time
  have halone : order.alone store recipe tool = given := hrecords.runFrom_eq (hsame _)
  obtain ⟨run, later, hcompile, -⟩ := hrecords [] _ log' (hsame admissions)
  have hsetting : CommandLine.order { store with prompts, recipes := some items }
      (some order.project) none = order.setting store.settings none := by
    rw [CommandLine.order, setting, hregistry]
  rw [halone, runFrom_eq, CommandLine.compileText, Bench.fresh, exec_bind_ok hadmissions,
    exec_within, exec_bind_ok hload, exec_bind_ok (exec_state _ _), hsetting, Bench.inRun,
    exec_within]
  exact congrArg Prod.fst hcompile

end Order

end Playbook
