import Playbook.Proofs.Generation.Faults
import Playbook.Proofs.Generation.Places
import Playbook.Proofs.Store.Items
import Playbook.Proofs.Validation.Soundness

/-!
# Generations that are given up

A project that is missing leaves all files as they were. Tools are looked up one
after the other, so that a tool without a backend is met when the scripts of the
recipes for the tools in front of it have been written. There is then nothing
else that has changed.
-/

namespace Playbook

open Work

theorem Work.Fails.ends {σ α : Type} {P : Fault → Prop} {I : σ → Prop} {work : Work σ α}
    (h : Work.Fails P I work) : Ends I (fun _ => I) work := by
  intro s log a t log' hs hexec
  have hend := (h s log hs).2
  rw [hexec] at hend
  exact hend

/-! ## Written scripts -/

namespace Store

/-- The tree after scripts were written, one after the other, into that of the store. -/
inductive Wrote (store : Store) : List WrittenScript → Tree → Prop
  | nothing : Wrote store [] store.tree
  | script {written : List WrittenScript} {tree next : Tree} {script : WrittenScript}
      {text : String} (before : Wrote store written tree)
      (h : tree.writeScript store.settings.root script.path text = (next, .ok ())) :
      Wrote store (written ++ [script]) next

/-- A store after scripts were written. -/
structure Since (store : Store) (written : List WrittenScript) (mid : Store) : Prop where
  wrote : store.Wrote written mid.tree
  settings : mid.settings = store.settings

variable {store : Store} {written : List WrittenScript}

theorem Wrote.eq_of_nil {tree : Tree} (h : store.Wrote written tree) (hnil : written = []) :
    tree = store.tree := by
  cases h with
  | nothing => rfl
  | script => simp at hnil

theorem ends_since {α : Type} {work : Work Store α} (h : Locally (fun _ tree settings =>
      store.Wrote written tree ∧ settings = store.settings) work) :
    Ends (store.Since written) (fun _ => store.Since written) work :=
  h.ends.mono (fun _ hs => ⟨hs.wrote, hs.settings⟩) fun _ _ hs => ⟨hs.1, hs.2⟩

theorem ends_write_since (script : WrittenScript) (text : String) :
    Ends (store.Since written) (fun _ => store.Since (written ++ [script]))
      (Order.write script.path text) := by
  unfold Order.write
  refine Ends.get fun mid hmid => ?_
  rcases hresult : mid.tree.writeScript mid.settings.root script.path text with ⟨next, outcome⟩
  have hset : Ends (fun s => s = mid) (fun _ s => s = { mid with tree := next })
      (Work.setState { mid with tree := next }) := Ends.setState rfl
  refine hset.bind fun _ => Ends.attempt_eq.bind fun _ => Ends.assuming fun houtcome => ?_
  rw [houtcome, hmid.settings] at hresult
  refine (Ends.tell _).mono (fun _ hs => hs) ?_
  rintro _ _ rfl
  exact ⟨.script hmid.wrote hresult, hmid.settings⟩

end Store

/-! ## Scripts of recipes -/

namespace Order

variable (order : Order) {store : Store} (written : List WrittenScript)

/-- A recipe changes no more than its report says. -/
theorem ends_recipe_since (backend : Backend) (directory : Path) (id : Value) :
    Ends (fun bench : Bench => store.Since written bench.store)
      (fun g bench => store.Since (written ++ g.written) bench.store)
      (order.recipe backend directory id) := by
  refine order.ends_recipe_of (P := store.Since written)
    (Q := fun g => store.Since (written ++ g.written)) backend directory id
    (Store.ends_since (Store.locally_getRecipe id))
    (Store.ends_since (Store.locally_recipePath id)) (fun mid shelf hmid => ?_)
    (fun g mid hg hs => ?_) (Store.ends_write_since _)
  · constructor
    case wrote => exact (mid.tree_keepAgents shelf).symm ▸ hmid.wrote
    case settings => exact (mid.settings_keepAgents shelf).trans hmid.settings
  · rwa [hg, List.append_nil]

theorem ends_recipes_since (tool : Value) :
    Ends (store.Since written) (fun g => store.Since (written ++ g.written))
      (order.recipes tool) := by
  unfold recipes
  refine Ends.attempt.bind fun backend => Ends.get fun mid hmid => ?_
  refine Ends.attempt.bind fun source => ?_
  refine Ends.attempt.bind fun there => Ends.ite (fun _ => ?_) fun _ => ?_
  · refine (Ends.tell _).bind fun _ => Ends.pure ?_
    rintro _ rfl
    rwa [Generation.ofSkipped, List.append_nil]
  · have hrecipe (directory : Path) (done : Generation) (id : Value) :
        Ends (fun bench : Bench => store.Since (written ++ done.written) bench.store)
          (fun g bench => store.Since (written ++ (done.append g).written) bench.store)
          (order.recipe backend directory id) := by
      have hsince := @ends_recipe_since order store (written ++ done.written) backend directory id
      simpa only [Generation.append, List.append_assoc] using hsince
    have hrecipes (directory : Path) (ids : List Value) :=
      @ends_collected _ _ (order.recipe backend directory)
        (fun done bench => store.Since (written ++ done.written) bench.store) ids
        (fun done id _ => hrecipe directory done id) .empty
    have hbench : Ends (fun bench : Bench => store.Since written bench.store)
        (fun g bench => store.Since (written ++ g.written) bench.store) (do
          let directory ← Work.attempt (order.outputDir mid.settings backend)
          let ids ← Bench.inStore Store.listRecipes
          ids.foldlM (fun done id => do
            return Generation.append done (← order.recipe backend directory id)) .empty) :=
      Ends.attempt.bind fun directory =>
        (ends_inStore (Store.ends_since Store.locally_listRecipes)).bind fun ids =>
          (hrecipes directory ids).mono (fun _ hs => (List.append_nil written).symm ▸ hs)
            fun _ _ hs => hs
    have hadmissions : Ends (fun s => s = mid) (fun _ => store.Since written) Store.admissions :=
      (Store.ends_since Store.locally_admissions).mono (fun _ heq => heq ▸ hmid) fun _ _ hs => hs
    unfold Bench.fresh
    exact hadmissions.bind fun admissions =>
      hbench.within (fun _ hs => hs) fun _ _ _ _ ht => ht

theorem ends_recipesFor_since (tools : List Value) :
    Ends (fun mid => mid = store) (fun g => store.Since g.written) (order.recipesFor tools) := by
  have hrecipes := @ends_collected _ _ order.recipes (fun done => store.Since done.written) tools
    (fun done tool _ => order.ends_recipes_since done.written tool) .empty
  refine hrecipes.mono ?_ fun _ _ hs => hs
  rintro _ rfl
  exact ⟨.nothing, rfl⟩

/-! ## Interruption -/

/--
A generation ended in a fault with which the first tool without a backend is looked up. What is
left behind is what the scripts of the recipes for the tools in front of it come to.
-/
structure Interrupted (order : Order) (tools : List Value) (fault : Fault) (store last : Store)
    (log : Log) (front : List Value) (g : Generation) : Prop where
  unknown : ∃ tool rest, tools = front ++ tool :: rest ∧
    order.registry.getNamed tool = .error fault
  known : ∀ tool ∈ front, ∃ backend, order.registry.getNamed tool = .ok backend
  generated : (order.recipesFor front).runFrom store = (.ok g, last, log)
  recipes : OfRecipes g
  wrote : store.Wrote g.written last.tree

variable {order} {tools front : List Value} {fault : Fault} {last : Store} {log : Log}
  {g : Generation}

theorem known_of_recipesFor {done : Generation} {s t : Store × Log}
    (h : exec (tools.foldlM (fun done tool => do
      return Generation.append done (← order.recipes tool)) done) s = (.ok g, t)) :
    ∀ tool ∈ tools, ∃ backend, order.registry.getNamed tool = .ok backend := by
  induction tools generalizing done s with
  | nil => simp
  | cons tool tools ih =>
      rw [List.foldlM_cons] at h
      obtain ⟨next, mid, hstep, hrest⟩ := of_exec_bind_ok h
      obtain ⟨own, mid', hrecipes, -⟩ := of_exec_bind_ok hstep
      unfold recipes at hrecipes
      obtain ⟨backend, mid'', hbackend, -⟩ := of_exec_bind_ok hrecipes
      refine List.forall_mem_cons.2 ⟨⟨backend, (of_exec_attempt_ok hbackend).1⟩, ih hrest⟩

/-- Where the fault of generating for tools is not a local one, it comes from the look-up. -/
theorem interrupted_of_recipesFor (keyed : order.registry.Keyed) (hfault : ¬ fault.IsLocal)
    (h : (order.recipesFor tools).runFrom store = (.error fault, last, log)) :
    ∃ front g, order.Interrupted tools fault store last log front g := by
  obtain ⟨front, tool, rest, g, ⟨mid, midLog⟩, rfl, hfront, htool⟩ := of_exec_foldlM_error h
  have hfails := fails_recipes keyed tool mid midLog trivial
  have hnamed : order.registry.getNamed tool = .error fault := by
    rcases hrecipes : exec (order.recipes tool) (mid, midLog) with ⟨other | own, t⟩
    · rw [exec_bind, hrecipes] at htool
      cases htool
      rw [hrecipes] at hfails
      exact (hfails.1 fault rfl).resolve_left hfault
    · rw [exec_bind_ok hrecipes] at htool
      cases htool
  have hsame : (mid, midLog) = (last, log) := by
    rw [exec_bind, recipes, hnamed] at htool
    cases htool
    rfl
  obtain ⟨rfl, rfl⟩ := Prod.mk.inj hsame
  have hof := order.ends_recipesFor front store [] g mid midLog (Store.onward_refl store) hfront
  have hsince := order.ends_recipesFor_since front store [] g mid midLog rfl hfront
  exact ⟨front, g, ⟨tool, rest, rfl, hnamed⟩, known_of_recipesFor hfront, hfront, hof.1,
    hsince.wrote⟩

theorem Interrupted.eq_of_nil (h : order.Interrupted tools fault store last log front g)
    (hnil : front = []) : last = store ∧ g = .empty := by
  have hgenerated := h.generated
  subst hnil
  cases hgenerated
  exact ⟨rfl, rfl⟩

end Order

namespace Store

variable {store last : Store} {registry : Registry} {id : Value} {wanted : List Value}
  {time : String} {fault : Fault} {log : Log}

theorem interrupted_of_generate (keyed : registry.Keyed) (hfault : ¬ fault.IsLocal)
    {project : Project} (hproject : (loadProject id).runFrom store = (.ok project, store, []))
    (h : (generate id wanted registry time).runFrom store = (.error fault, last, log)) :
    ∃ front g, (Order.mk project time registry).Interrupted
      (if wanted.isEmpty then store.settings.defaultTools else wanted) fault store last log
      front g := by
  let order : Order := ⟨project, time, registry⟩
  unfold generate at h
  rw [runFrom_eq, exec_bind_ok hproject, exec_bind_ok (exec_state _ _)] at h
  change exec (order.recipesFor
      (if wanted.isEmpty then store.settings.defaultTools else wanted) >>= fun ofRecipes =>
    order.features wanted >>= fun g => pure (ofRecipes.append g)) (store, []) = _ at h
  rcases hrecipes : exec (order.recipesFor
    (if wanted.isEmpty then store.settings.defaultTools else wanted)) (store, []) with
    ⟨other | g, mid, midLog⟩
  · rw [exec_bind, hrecipes] at h
    cases h
    exact Order.interrupted_of_recipesFor keyed hfault hrecipes
  · -- features are passed over where a tool is unknown
    rw [exec_bind_ok hrecipes] at h
    have hfails := Work.Fails.bind (order.fails_features keyed wanted)
      (fun own => Work.Fails.pure (g.append own)) mid midLog trivial
    rw [h] at hfails
    exact absurd (hfails.1 fault rfl) hfault

/--
Where a generation is given up since no manifest is found, all files are as they were. Where it
is since a tool is unknown, the project was found, the tool is the first one on the list that
has no backend, and the scripts of the recipes for the tools in front of it are the only change:
there is none if they are none, as for the first tool on the list.
-/
theorem spared_of_generate (keyed : registry.Keyed)
    (h : (generate id wanted registry time).runFrom store = (.error fault, last, log)) :
    (∀ kind name place, fault = .notFound kind name place → last.tree = store.tree) ∧
    ∀ tool available, fault = .unknownTool tool available →
      ∃ project front g, (loadProject id).runFrom store = (.ok project, store, []) ∧
        (Order.mk project time registry).Interrupted
          (if wanted.isEmpty then store.settings.defaultTools else wanted) fault store last log
          front g ∧
        (g.written = [] → last.tree = store.tree) ∧ (front = [] → last = store) := by
  rcases hproject : (loadProject id).runFrom store with ⟨first | project, mid, midLog⟩
  · obtain ⟨hspares, hmid⟩ := fails_loadProject store id store [] rfl
    rw [← runFrom_eq, hproject] at hspares hmid
    rw [runFrom_eq, generate, exec_bind, ← runFrom_eq, hproject] at h
    cases h
    refine ⟨fun _ _ _ _ => congrArg Store.tree hmid, ?_⟩
    rintro tool available rfl
    exact absurd rfl (hspares _ rfl tool available)
  · obtain ⟨-, -, -, -, -, -, -, hsame⟩ := of_exec_loadProject_ok hproject
    cases hsame
    refine ⟨?_, ?_⟩
    · rintro kind name place rfl
      have hfault : ¬ Fault.IsLocal (.notFound kind name place) := by rintro ⟨⟩
      obtain ⟨front, g, hinterrupted⟩ := interrupted_of_generate keyed hfault hproject h
      obtain ⟨tool, rest, -, hnamed⟩ := hinterrupted.unknown
      rcases registry.getNamed_cases tool _ hnamed with hlocal | ⟨name, hname⟩
      · cases hlocal
      · cases hname
    · rintro tool available rfl
      have hfault : ¬ Fault.IsLocal (.unknownTool tool available) := by rintro ⟨⟩
      obtain ⟨front, g, hinterrupted⟩ := interrupted_of_generate keyed hfault hproject h
      exact ⟨project, front, g, rfl, hinterrupted, hinterrupted.wrote.eq_of_nil,
        fun hnil => (hinterrupted.eq_of_nil hnil).1⟩

/-- A generation for a tool with a backend, and then for one without. -/
def shopRun : Attempt Generation × Store × Log :=
  (generate (.text "shop") [.text "cursor", .text "emacs"] Registry.builtIn "today").runFrom
    (ofSettings shopTree shopSettings)

def unknownTool? (result : Attempt Generation) : Option String :=
  match result with
  | .error (.unknownTool tool _) => some tool
  | _ => none

theorem shopRun_eq : ∃ available last log,
    shopRun = (.error (.unknownTool "emacs" available), last, log) ∧ last.tree ≠ shopTree := by
  have htool : unknownTool? shopRun.1 = some "emacs" := by decide +kernel
  have hfiles : shopRun.2.1.tree.files.length = 6 ∧ shopTree.files.length = 5 := by
    decide +kernel
  rcases hrun : shopRun with ⟨result, last, log⟩
  rw [hrun] at htool hfiles
  unfold unknownTool? at htool
  split at htool
  · rename_i tool available hresult
    cases htool
    cases hresult
    refine ⟨available, last, log, rfl, fun hsame => ?_⟩
    rw [← hsame] at hfiles
    exact absurd (hfiles.1.symm.trans hfiles.2) (by decide)
  · cases htool

/-- The script for the tool in front of an unknown one is not taken back. -/
theorem changed_by_generate_shop : ∃ available last log,
    (generate (.text "shop") [.text "cursor", .text "emacs"] Registry.builtIn "today").runFrom
      (ofSettings shopTree shopSettings) = (.error (.unknownTool "emacs" available), last, log) ∧
    last.tree ≠ (ofSettings shopTree shopSettings).tree :=
  shopRun_eq

theorem spared_of_generate_shop :
    Registry.builtIn.Keyed ∧ ∃ available last log project g,
      (generate (.text "shop") [.text "cursor", .text "emacs"] Registry.builtIn "today").runFrom
        (ofSettings shopTree shopSettings) = (.error (.unknownTool "emacs" available), last, log) ∧
      (Order.mk project "today" Registry.builtIn).Interrupted [.text "cursor", .text "emacs"]
        (.unknownTool "emacs" available) (ofSettings shopTree shopSettings) last log
        [.text "cursor"] g ∧
      g.written ≠ [] := by
  have keyed : Registry.builtIn.Keyed := Registry.keyed_ofBackends _
  obtain ⟨available, last, log, hrun, hchanged⟩ := shopRun_eq
  obtain ⟨project, front, g, -, hinterrupted, hwritten, hfront⟩ :=
    (spared_of_generate keyed hrun).2 _ _ rfl
  obtain ⟨tool, rest, htools, -⟩ := hinterrupted.unknown
  obtain rfl : front = [.text "cursor"] := by
    match front, htools with
    | [], _ => exact absurd (congrArg Store.tree (hfront rfl)) hchanged
    | [_], htools => rw [(List.cons.inj htools).1]
    | _ :: _ :: _, htools => simp at htools
  exact ⟨keyed, available, last, log, project, g, hrun, hinterrupted,
    fun hnone => hchanged (hwritten hnone)⟩

end Store

end Playbook
