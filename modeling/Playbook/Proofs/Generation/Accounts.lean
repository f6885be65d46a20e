import Playbook.Proofs.Generation.Benches
import Playbook.Proofs.Generation.Features
import Playbook.Proofs.Generation.Places
import Playbook.Proofs.Store.Calls
import Playbook.Proofs.Store.Faults
import Playbook.Proofs.Tree.Placing
import Playbook.Proofs.Value.Sorting

/-!
# Accounts of recipes

Generating the scripts for a tool accounts for every recipe: it is not asked
for, or passed over because it has no steps, or written as the script that it
gives alone. Nothing else is written.
-/

namespace Playbook

open Work

/-! ## Recipes that are asked for -/

/-- A whitelist with members names all that is included, a blacklist what is not. -/
def Admission.Includes (lists : Admission) (id : String) : Prop :=
  if lists.whitelist = [] then id ∉ lists.blacklist else id ∈ lists.whitelist

theorem Admission.lets_eq_true_iff {lists : Admission} {id : String} :
    lists.lets (fun entry => (Value.text id).isAmong [entry]) = true ↔ lists.Includes id := by
  rw [Admissions.text_isAmong, lets, Includes]
  by_cases hwhite : lists.whitelist = []
  · by_cases hblack : lists.blacklist = []
    · simp [hwhite, hblack]
    · simp [hwhite, hblack]
      exact ⟨fun h hmem => h id hmem rfl, fun h entry hentry heq => h (heq ▸ hentry)⟩
  · simp [hwhite]

theorem Recipe.isFor_eq_true_iff {recipe : Recipe} {tool : String} :
    recipe.isFor tool = true ↔ recipe.tools = [] ∨ tool ∈ recipe.tools := by
  simp [isFor]

namespace Order

/-- A recipe of a store that is for a tool and that the project includes. -/
structure Asks (order : Order) (store : Store) (tool id : String) (recipe : Recipe) : Prop where
  held : ((Store.getRecipe (.text id)).runFrom store).1 = .ok (some recipe)
  targets : recipe.tools = [] ∨ tool ∈ recipe.tools
  included : (order.project.aiTools.listsFor .recipes).Includes id

/-- The recipe with an id, if it is asked for. -/
def asked? (order : Order) (items : Collection.Items Recipe) (tool id : String) : Option Recipe :=
  ((items.find? fun item => item.1.same (.text id)).map (·.2.2)).filter fun recipe =>
    recipe.isFor tool && (order.project.aiTools.listsFor .recipes).lets fun entry =>
      (Value.text id).isAmong [entry]

def writes (order : Order) (items : Collection.Items Recipe) (tool id : String) : Bool :=
  (order.asked? items tool id).any fun recipe => !recipe.steps.isEmpty

def skips (order : Order) (items : Collection.Items Recipe) (tool id : String) : Bool :=
  (order.asked? items tool id).any fun recipe => recipe.steps.isEmpty

variable {order : Order} {store : Store} {items : Collection.Items Recipe} {tool : String}

theorem asked?_eq_some_iff (hread : store.recipesRead = .ok items) {id : String} {recipe : Recipe} :
    order.asked? items tool id = some recipe ↔ order.Asks store tool id recipe := by
  have hfind : Store.find? items (.text id) =
      .ok ((items.find? fun item => item.1.same (.text id)).map (·.2)) := rfl
  obtain ⟨log, hget⟩ := Store.exec_getRecipe_of_read hread hfind []
  have hheld : ((Store.getRecipe (.text id)).runFrom store).1 = .ok (some recipe) ↔
      (items.find? fun item => item.1.same (.text id)).map (·.2.2) = some recipe := by
    rw [runFrom_eq, hget]
    simp
  rw [asked?, Option.filter_eq_some_iff, Bool.and_eq_true, Recipe.isFor_eq_true_iff,
    Admission.lets_eq_true_iff, ← hheld]
  exact ⟨fun ⟨held, targets, included⟩ => ⟨held, targets, included⟩,
    fun ⟨held, targets, included⟩ => ⟨held, targets, included⟩⟩

theorem exists_item_of_asked? {id : String} {recipe : Recipe}
    (h : order.asked? items tool id = some recipe) :
    ∃ path, (items.find? fun item => item.1.same (.text id)) = some (.text id, path, recipe) := by
  obtain ⟨item, hitem, rfl⟩ := Option.map_eq_some_iff.1 (Option.filter_eq_some_iff.1 h).1
  have hid : item.1 = .text id := Value.eq_of_same_text (by simpa using List.find?_some hitem)
  exact ⟨item.2.1, by rw [hitem, ← hid]⟩

theorem writes_eq_true_iff (hread : store.recipesRead = .ok items) {id : String} :
    order.writes items tool id = true ↔
      ∃ recipe, order.Asks store tool id recipe ∧ recipe.steps ≠ [] := by
  simp [writes, Option.any_eq_true, asked?_eq_some_iff hread]

theorem skips_eq_true_iff (hread : store.recipesRead = .ok items) {id : String} :
    order.skips items tool id = true ↔
      ∃ recipe, order.Asks store tool id recipe ∧ recipe.steps = [] := by
  simp [skips, Option.any_eq_true, asked?_eq_some_iff hread]

/-! ## Going through the recipes -/

def scriptPlace (store : Store) (directory : Path) (id : String) : List String :=
  Tree.place (store.settings.root.append (scriptPath directory id))

/--
What there is when some recipes have been gone through: a script for each that
is asked for and has steps, with the text that the recipe has alone.
-/
structure Progress (order : Order) (store : Store) (items : Collection.Items Recipe)
    (tool : String) (directory : Path) (past : List String) (done : Generation) (bench : Bench) :
    Prop extends Bench.Follows store items bench where
  written : done.written = (past.filter (order.writes items tool)).map fun id =>
    ⟨scriptPath directory id, .text id, tool, none⟩
  skipped : done.skipped = (past.filter (order.skips items tool)).map fun id =>
    ⟨.text id, "recipe has no steps"⟩
  holds : ∀ id ∈ past.filter (order.writes items tool), ∃ recipe text,
    order.asked? items tool id = some recipe ∧ order.alone store recipe tool = .ok text ∧
      bench.store.tree.fileAt? (scriptPlace store directory id) = some ⟨.text text, true⟩
  others : ∀ names, (∀ id ∈ past.filter (order.writes items tool),
    names ≠ scriptPlace store directory id) →
      bench.store.tree.fileAt? names = store.tree.fileAt? names

namespace Progress

variable {directory : Path} {past : List String} {done : Generation} {bench bench' : Bench}
  {id : String}

/-- A recipe that is not written leaves every file, and may be passed over with a reason. -/
theorem keep (h : order.Progress store items tool directory past done bench) {more : Generation}
    (hwrites : order.writes items tool id = false) (hwritten : more.written = [])
    (hskipped : more.skipped = ([id].filter (order.skips items tool)).map fun id =>
      ⟨.text id, "recipe has no steps"⟩)
    (htree : bench'.store.tree = bench.store.tree) (follows : bench'.Follows store items) :
    order.Progress store items tool directory (past ++ [id]) (done.append more) bench' := by
  have hpast : (past ++ [id]).filter (order.writes items tool) =
      past.filter (order.writes items tool) := by
    simp [List.filter_append, hwrites]
  refine ⟨follows, ?_, ?_, ?_, ?_⟩
  · rw [hpast, ← h.written, Generation.append, hwritten]
    exact List.append_nil _
  · rw [List.filter_append, List.map_append, ← h.skipped, ← hskipped]
    rfl
  · rw [hpast, htree]
    exact h.holds
  · rw [hpast, htree]
    exact h.others

/-- A recipe that is not asked for leaves everything as it is. -/
theorem pass (h : order.Progress store items tool directory past done bench)
    (hnone : order.asked? items tool id = none) (htree : bench'.store.tree = bench.store.tree)
    (follows : bench'.Follows store items) :
    order.Progress store items tool directory (past ++ [id]) (done.append .empty) bench' :=
  h.keep (by simp [writes, hnone]) rfl (by simp [skips, hnone, Generation.empty]) htree follows

/-- A recipe without steps is passed over with its reason. -/
theorem skip (h : order.Progress store items tool directory past done bench) {recipe : Recipe}
    (hasked : order.asked? items tool id = some recipe) (hempty : recipe.steps = [])
    (htree : bench'.store.tree = bench.store.tree) (follows : bench'.Follows store items) :
    order.Progress store items tool directory (past ++ [id])
      (done.append (.ofSkipped (.text id) "recipe has no steps")) bench' :=
  h.keep (by simp [writes, hasked, hempty]) rfl
    (by simp [skips, hasked, hempty, Generation.ofSkipped]) htree follows

/-- A recipe with steps is written to a place of its own. -/
theorem write (h : order.Progress store items tool directory past done bench) {recipe : Recipe}
    (hasked : order.asked? items tool id = some recipe) (hfilled : recipe.steps ≠ [])
    {text : String} (htext : order.alone store recipe tool = .ok text)
    (hfresh : ∀ other ∈ past, scriptPlace store directory other ≠ scriptPlace store directory id)
    (hsets : Tree.Sets (scriptPlace store directory id) (some ⟨.text text, true⟩) bench.store.tree
      bench'.store.tree)
    (follows : bench'.Follows store items) :
    order.Progress store items tool directory (past ++ [id])
      (done.append (.ofWritten ⟨scriptPath directory id, .text id, tool, none⟩)) bench' := by
  have hwrites : (past ++ [id]).filter (order.writes items tool) =
      past.filter (order.writes items tool) ++ [id] := by
    simp [List.filter_append, writes, hasked, hfilled]
  have hskips : (past ++ [id]).filter (order.skips items tool) =
      past.filter (order.skips items tool) := by
    simp [List.filter_append, skips, hasked, hfilled]
  refine ⟨follows, ?_, ?_, ?_, ?_⟩
  · rw [hwrites, List.map_append, ← h.written]
    rfl
  · rw [hskips, ← h.skipped]
    exact List.append_nil _
  · rw [hwrites]
    intro other hother
    rcases List.mem_append.1 hother with hother | hother
    · obtain ⟨found, own, hfound, hown, hfile⟩ := h.holds other hother
      refine ⟨found, own, hfound, hown, ?_⟩
      rw [hsets, if_neg (hfresh other (List.mem_of_mem_filter hother)), hfile]
    · obtain rfl := List.mem_singleton.1 hother
      exact ⟨recipe, text, hasked, htext, by rw [hsets, if_pos rfl]⟩
  · rw [hwrites]
    intro names hnames
    rw [hsets, if_neg (hnames id (by simp))]
    exact h.others names fun other hother => hnames other (List.mem_append_left _ hother)

end Progress

variable {directory : Path} {past : List String} {done : Generation} {bench : Bench}

theorem ends_write_sets (store : Store) (path : Path) {init : List String} {last : String}
    (hnames : path.names = init ++ [last]) (hscript : Tree.IsScript last) (text : String) :
    Ends (fun t => t = store) (fun _ t => ∃ tree, t = { store with tree } ∧
        Tree.Sets (Tree.place (store.settings.root.append path)) (some ⟨.text text, true⟩)
          store.tree tree)
      (Order.write path text) := by
  unfold Order.write
  refine Ends.get ?_
  rintro store rfl
  rcases hwrite : store.tree.writeScript store.settings.root path text with ⟨tree, outcome⟩
  dsimp only
  have hset : Ends (fun t => t = store) (fun _ t => t = { store with tree })
      (Work.setState { store with tree }) := Ends.setState rfl
  refine hset.bind fun _ => ?_
  refine Ends.attempt_eq.bind fun _ => Ends.assuming fun houtcome => ?_
  subst houtcome
  refine (Ends.tell _).mono (fun _ h => h) ?_
  rintro _ _ rfl
  exact ⟨tree, rfl, Tree.sets_writeScript hnames hscript hwrite⟩

/-- Recipes that were read are looked up without a change. -/
theorem ends_recipeItems_held (hrecipes : store.recipes = some items) :
    Ends (fun t => t = store) (fun found t => found = items ∧ t = store) Store.recipeItems := by
  unfold Store.recipeItems Store.kept
  refine Ends.get ?_
  rintro store rfl
  dsimp only
  rw [hrecipes]
  exact Ends.pure fun _ ht => ⟨rfl, ht⟩

/-- Work in the store leaves the rest of a bench. -/
theorem ends_inStore_eq {α : Type} {work : Work Store α} {Q : α → Store → Prop} {bench : Bench}
    (h : Ends (fun t => t = bench.store) Q work) :
    Ends (fun t => t = bench) (fun a t => ∃ s, Q a s ∧ t = { bench with store := s })
      (Bench.inStore work) :=
  h.within (fun _ hs => by rw [hs]) fun _ _ t hs ht => ⟨t, ht, by rw [hs]⟩

theorem ends_getRecipe_found (hrecipes : store.recipes = some items) (id : String) :
    Ends (fun t => t = store)
      (fun found t => found = (items.find? fun item => item.1.same (.text id)).map (·.2.2) ∧
        t = store)
      (Store.getRecipe (.text id)) := by
  unfold Store.getRecipe
  refine (ends_recipeItems_held hrecipes).bind fun found => Ends.assuming fun hfound => ?_
  refine Ends.attempt_eq.bind fun given => Ends.assuming fun hgiven => ?_
  refine Ends.pure fun t ht => ⟨?_, ht⟩
  subst hfound
  cases hgiven
  exact Option.map_map _ _ _

theorem ends_recipePath_held (hrecipes : store.recipes = some items) (id : Value) :
    Ends (fun t => t = store) (fun _ t => t = store) (Store.recipePath id) := by
  unfold Store.recipePath
  refine (ends_recipeItems_held hrecipes).bind fun found => Ends.assuming fun _ => ?_
  exact Ends.attempt.bind fun place => Ends.pure fun _ ht => ht

theorem ends_admits (bench : Bench) (follows : bench.Follows store items) (id : String) :
    Ends (fun t => t = bench)
      (fun admitted t => admitted = (order.project.aiTools.listsFor .recipes).lets (fun entry =>
        (Value.text id).isAmong [entry]) ∧ t.store = bench.store ∧ t.Follows store items)
      (Bench.inAdmissions (Admissions.admits .recipes (.text id) (some order.project))) := by
  rintro _ log admitted t log' rfl hexec
  obtain ⟨admissions, hadmits, rfl⟩ := of_exec_within_ok hexec
  obtain ⟨lists, _, hlists, hgiven⟩ := of_exec_bind_ok hadmits
  cases hgiven
  rw [Admissions.of_exec_lists_ok hlists]
  exact ⟨rfl, rfl, follows.settings, follows.recipes, follows.asked, follows.read⟩

theorem ends_recipe_progress (hkeyed : KeyedAgents store.agentShelf.outcome)
    (aborts : store.agentShelf.outcome.Aborts)
    (hcanonical : ∀ item ∈ items, ∀ step ∈ item.2.2.steps, step.agent.Canonical)
    {backend : Backend} {id : String}
    (hfresh : ∀ other ∈ past, scriptPlace store directory other ≠ scriptPlace store directory id) :
    Ends (order.Progress store items backend.id directory past done)
      (fun g bench => order.Progress store items backend.id directory (past ++ [id])
        (done.append g) bench)
      (order.recipe backend directory (.text id)) := by
  refine Ends.fixed fun bench h => ?_
  unfold Order.recipe
  refine (ends_inStore_eq (ends_getRecipe_found h.recipes id)).bind fun found => Ends.fixed ?_
  rintro _ ⟨_, ⟨hfound, rfl⟩, rfl⟩
  cases found with
  | none => exact Ends.throw _
  | some recipe =>
      have hsteps : ∀ step ∈ recipe.steps, step.agent.Canonical := by
        obtain ⟨item, hitem, rfl⟩ := Option.map_eq_some_iff.1 hfound.symm
        exact hcanonical item (List.mem_of_find?_eq_some hitem)
      have hasked : order.asked? items backend.id id = if recipe.isFor backend.id &&
          (order.project.aiTools.listsFor .recipes).lets fun entry =>
            (Value.text id).isAmong [entry] then some recipe else none := by
        rw [asked?, ← hfound, Option.filter_some]
      refine Ends.ite (fun hnot => ?_) fun hfor => ?_
      · refine Ends.pure ?_
        rintro _ rfl
        refine h.pass ?_ rfl h.toFollows
        rw [hasked, if_neg (by simp_all)]
      · refine (ends_admits bench h.toFollows id).bind fun admitted => ?_
        refine Ends.assuming fun hadmitted => Ends.ite (fun hnot => ?_) fun hin => ?_
        · refine (Ends.tell _).bind fun _ => Ends.pure ?_
          rintro t ⟨hstore, follows⟩
          refine h.pass ?_ (by rw [hstore]) follows
          rw [hasked, ← hadmitted, if_neg (by simp_all)]
        · rw [← hadmitted, if_pos (by simp_all)] at hasked
          refine Ends.fixed fun mid hmid => ?_
          unfold recipeScript
          refine (order.ends_compile_alone hkeyed aborts hsteps hmid.2).bind fun result => ?_
          cases result with
          | error fault =>
              refine Ends.fixed fun last hlast => ?_
              obtain ⟨⟨hempty, hreason⟩, htree, follows, -⟩ := hlast
              refine (ends_inStore_eq (ends_recipePath_held follows.recipes (.text id))).bind
                fun place => (Ends.tell _).bind fun _ => Ends.pure ?_
              rintro _ ⟨_, rfl, rfl⟩
              rw [hreason]
              exact h.skip hasked hempty (htree.trans (by rw [hmid.1])) follows
          | ok text =>
              refine Ends.fixed fun last hlast => ?_
              obtain ⟨⟨hfilled, htext⟩, htree, follows, hagents⟩ := hlast
              obtain ⟨init, name, hnames, hscript⟩ := directory.exists_script id
              refine (ends_inStore_eq (ends_write_sets last.store (scriptPath directory id) hnames
                hscript text)).bind fun _ => Ends.pure ?_
              rintro _ ⟨_, ⟨tree, rfl, hsets⟩, rfl⟩
              rw [follows.settings, htree, hmid.1] at hsets
              exact h.write hasked hfilled htext hfresh hsets
                (follows.withTree (hagents ⟨text, rfl⟩) tree)

theorem ends_recipes_progress (hkeyed : KeyedAgents store.agentShelf.outcome)
    (aborts : store.agentShelf.outcome.Aborts)
    (hcanonical : ∀ item ∈ items, ∀ step ∈ item.2.2.steps, step.agent.Canonical)
    {backend : Backend} {ids : List String} (distinct : ids.Nodup)
    (kebab : ∀ id ∈ ids, Validation.isKebabCase id = true) :
    Ends (fun bench => bench.store.tree = store.tree ∧ bench.Follows store items)
      (order.Progress store items backend.id directory ids)
      ((ids.map Value.text).foldlM (fun done id => do
        return done.append (← order.recipe backend directory id)) Generation.empty) := by
  rw [List.foldlM_map]
  refine Ends.mono (Ends.foldlM_along (L := order.Progress store items backend.id directory)
    fun past id rest hids done => ?_) (fun bench h => ?_) fun _ _ h => h
  · have hfresh : ∀ other ∈ past,
        scriptPlace store directory other ≠ scriptPlace store directory id := by
      intro other hother heq
      have hmem : other ∈ ids := by
        rw [hids]
        exact List.mem_append_left _ hother
      obtain rfl := Tree.place_script_inj (Validation.slash_notMem (kebab other hmem))
        (Validation.slash_notMem (kebab id (by simp [hids]))) heq
      rw [hids] at distinct
      exact List.disjoint_of_nodup_append distinct hother List.mem_cons_self
    exact (ends_recipe_progress hkeyed aborts hcanonical hfresh).bind fun g =>
      Ends.pure fun _ h => h
  · exact ⟨h.2, rfl, rfl, by simp, fun names _ => by rw [h.1]⟩

/-- What generating scripts for a tool comes to: some recipes are written and some passed over. -/
structure Accounts (order : Order) (store : Store) (tool : String) (directory : Path)
    (full empty : List String) (g : Generation) (last : Store) : Prop where
  full_sorted : full.Pairwise (· < ·)
  mem_full : ∀ id, id ∈ full ↔ ∃ recipe, order.Asks store tool id recipe ∧ recipe.steps ≠ []
  written : g.written = full.map fun id => ⟨scriptPath directory id, .text id, tool, none⟩
  empty_sorted : empty.Pairwise (· < ·)
  mem_empty : ∀ id, id ∈ empty ↔ ∃ recipe, order.Asks store tool id recipe ∧ recipe.steps = []
  skipped : g.skipped = empty.map fun id => ⟨.text id, "recipe has no steps"⟩
  holds : ∀ id ∈ full, ∃ text,
    ((CommandLine.compileText (.text id) (.text tool) order.time (some order.project) none).runFrom
      store).1 = .ok text ∧
    last.tree.fileAt? (scriptPlace store directory id) = some ⟨.text text, true⟩
  others : ∀ names, (∀ id ∈ full, names ≠ scriptPlace store directory id) →
    last.tree.fileAt? names = store.tree.fileAt? names

end Order

/-! ## Agents of steps -/

theorem Step.normal_agent {v : Value} {step : Step} (hv : v.Normal)
    (h : Step.ofValue v = .ok step) : step.agent.Normal := by
  obtain ⟨id, -, h⟩ := Attempt.of_bind_ok h
  obtain ⟨agent, hagent, h⟩ := Attempt.of_bind_ok h
  iterate 11 obtain ⟨_, -, h⟩ := Attempt.of_bind_ok h
  cases h
  exact hv.required hagent

/-- The agents of a recipe from a normal value are normal. -/
theorem Recipe.normal_agent {v : Value} {recipe : Recipe} (hv : v.Normal)
    (h : Recipe.ofValue v = .ok recipe) : ∀ step ∈ recipe.steps, step.agent.Normal := by
  iterate 4 obtain ⟨_, -, h⟩ := Attempt.of_bind_ok h
  obtain ⟨listed, hlisted, h⟩ := Attempt.of_bind_ok h
  obtain ⟨items, hitems, h⟩ := Attempt.of_bind_ok h
  obtain ⟨steps, hsteps, h⟩ := Attempt.of_bind_ok h
  iterate 15 obtain ⟨_, -, h⟩ := Attempt.of_bind_ok h
  cases h
  intro step hstep
  obtain ⟨item, hitem, hread⟩ := exists_left_of_mem (Attempt.of_mapM_ok hsteps) hstep
  have hempty : (Value.list []).Normal := trivial
  exact Step.normal_agent (((hv.field hlisted).orElse hempty).member hitems item hitem) hread

/-! ## Stores that can be accounted for -/

namespace Store

variable {store : Store}

/-- A store of files, whether it has read them or not, in which recipes have ids in kebab case. -/
structure Regular (store : Store) : Prop where
  kebab : ∀ items, store.recipesRead = .ok items →
    ∀ item ∈ items, ∃ id, item.1 = .text id ∧ Validation.isKebabCase id = true
  faithful : store.Faithful
  normal : store.tree.KeepsValues Value.Normal

theorem Faithful.outcome_eq (faithful : store.Faithful) :
    store.agentShelf.outcome =
      (Kind.agents.reading store).2.map fun items => items.map fun item => (item.1, item.2.2) := by
  rw [agentShelf]
  cases hheld : store.agents with
  | some items =>
      rw [faithful .agents items hheld]
      rfl
  | none => rfl

/-- Agents that cannot be read are no reason to pass over a recipe. -/
theorem Regular.aborts (regular : store.Regular) : store.agentShelf.outcome.Aborts := by
  rw [regular.faithful.outcome_eq]
  exact ((isLocal_readAgents store).map _).mono fun _ hlocal => hlocal.aborts

theorem Regular.keyed (regular : store.Regular) : KeyedAgents store.agentShelf.outcome := by
  rw [regular.faithful.outcome_eq]
  intro found houtcome entry hentry
  cases hread : (Kind.agents.reading store).2 with
  | error fault =>
      rw [hread] at houtcome
      cases houtcome
  | ok items =>
      rw [hread] at houtcome
      cases houtcome
      obtain ⟨item, hitem, rfl⟩ := List.mem_map.1 hentry
      obtain ⟨path, hyields, hid, hkey⟩ := Kind.exists_yields_of_reading hread hitem
      refine ⟨hkey, ?_⟩
      rw [hid]
      exact Kind.canonical_of_yields regular.normal hyields

theorem Regular.asked (regular : store.Regular) {items : Collection.Items Recipe}
    (h : store.recipesRead = .ok items) :
    ∀ item ∈ items, ∀ step ∈ item.2.2.steps, step.agent.Canonical := by
  intro item hitem step hstep
  obtain ⟨path, ⟨v, hdocument, hparse⟩, -, -⟩ :=
    Kind.exists_yields_of_reading (regular.faithful.recipes h) hitem
  have hnormal : v.Normal := regular.normal.normal (Manifests.document_of_document hdocument)
  exact (Recipe.normal_agent hnormal hparse step hstep).canonical

/-- When all recipes have been gone through in order, they are accounted for. -/
theorem Regular.accounts (regular : store.Regular) {order : Order}
    (hregistry : order.registry = Registry.builtIn) {items : Collection.Items Recipe}
    (hread : store.recipesRead = .ok items) {admissions : Admissions} {s : Store × Log}
    (hadmissions : exec Store.admissions (store, []) = (.ok admissions, s)) {sorted : List String}
    (increasing : sorted.Pairwise (· < ·))
    (hsorted : ∀ id, id ∈ sorted ↔ Value.text id ∈ items.map (·.1))
    {tool : String} {directory : Path} {g : Generation} {bench : Bench}
    (progress : order.Progress store items tool directory sorted g bench) :
    order.Accounts store tool directory (sorted.filter (order.writes items tool))
      (sorted.filter (order.skips items tool)) g bench.store := by
  have hheld (id : String) {recipe : Recipe} (hasks : order.Asks store tool id recipe) :
      id ∈ sorted := by
    obtain ⟨path, hitem⟩ := Order.exists_item_of_asked? ((Order.asked?_eq_some_iff hread).2 hasks)
    exact (hsorted id).2 (List.mem_map_of_mem (List.mem_of_find?_eq_some hitem))
  refine ⟨increasing.filter _, fun id => ?_, progress.written, increasing.filter _, fun id => ?_,
    progress.skipped, fun id hid => ?_, progress.others⟩
  · rw [List.mem_filter, Order.writes_eq_true_iff hread]
    exact ⟨And.right, fun h => ⟨hheld id h.choose_spec.1, h⟩⟩
  · rw [List.mem_filter, Order.skips_eq_true_iff hread]
    exact ⟨And.right, fun h => ⟨hheld id h.choose_spec.1, h⟩⟩
  · obtain ⟨recipe, text, hasked, htext, hfile⟩ := progress.holds id hid
    obtain ⟨path, hitem⟩ := Order.exists_item_of_asked? hasked
    have hfound : Store.find? items (.text id) = .ok (some (path, recipe)) := by
      rw [Store.find?, if_pos (by rfl), hitem]
      rfl
    refine ⟨text, ?_, hfile⟩
    rw [← htext]
    exact order.compileText_eq hregistry regular.keyed
      (regular.asked hread _ (List.mem_of_find?_eq_some hitem)) hread hfound hadmissions

/--
Generating scripts for a tool writes the recipes that are asked for and have
steps, in order, with the text that each has alone, passes over those without
steps, and leaves all other files as they are.
-/
theorem accounts_of_recipes {last : Store} (regular : store.Regular) {order : Order}
    (hregistry : order.registry = Registry.builtIn) {tool : Value} {source : Path}
    (hsource : store.settings.dirPath "recipes" = .ok source)
    (hthere : store.tree.isDirectory source = .ok true) {g : Generation} {log : Log}
    (h : (order.recipes tool).runFrom store = (.ok g, last, log)) :
    ∃ backend project full empty, tool = .text backend.id ∧
      Registry.builtIn.find? backend.id = some backend ∧ order.project.id = .text project ∧
      order.Accounts store backend.id
        (((store.settings.outputRoot.child project).child backend.id).child backend.recipesDir)
        full empty g last := by
  rw [runFrom_eq] at h
  unfold Order.recipes at h
  obtain ⟨backend, _, hgiven, hstart⟩ := of_exec_bind_ok h
  obtain ⟨hbackend, rfl⟩ := of_exec_attempt_ok hgiven
  obtain ⟨name, rfl, hfind⟩ := Registry.of_getNamed_ok hbackend
  obtain rfl := Registry.id_of_find? hregistry hfind
  rw [hregistry] at hfind
  rw [exec_bind_ok (exec_state _ _), exec_bind_ok (exec_attempt _ _ |>.trans (by rw [hsource])),
    exec_bind_ok (exec_attempt _ _ |>.trans (by rw [hthere])), Bool.not_true,
    if_neg Bool.false_ne_true, Bench.fresh] at hstart
  obtain ⟨admissions, ⟨mid, midLog⟩, hadmissions, hwithin⟩ := of_exec_bind_ok hstart
  obtain ⟨prompts, rfl⟩ := ends_admissions_eq store [] admissions mid midLog rfl hadmissions
  obtain ⟨bench, hrun, rfl⟩ := of_exec_within_ok hwithin
  obtain ⟨directory, _, hplace, hlisted⟩ := of_exec_bind_ok hrun
  obtain ⟨hdirectory, rfl⟩ := of_exec_attempt_ok hplace
  obtain ⟨project, hproject, rfl⟩ := Order.of_outputDir_ok hdirectory
  obtain ⟨ids, ⟨ready, readyLog⟩, hids, hfold⟩ := of_exec_bind_ok hlisted
  obtain ⟨s, hlist, rfl⟩ := of_exec_within_ok hids
  obtain ⟨items, readLog, hread, hsorted, hs⟩ := of_exec_listRecipes_ok hlist
  cases hs
  change store.recipesRead = .ok items at hread
  have texts : ∀ item ∈ items, ∃ id, item.1 = .text id := by
    intro item hitem
    obtain ⟨id, hid, -⟩ := regular.kebab items hread item hitem
    exact ⟨id, hid⟩
  obtain ⟨sorted, rfl, increasing, hmem⟩ :=
    exists_sorted texts (Kind.nodup_of_reading (regular.faithful.recipes hread)) hsorted
  have kebab : ∀ id ∈ sorted, Validation.isKebabCase id = true := by
    intro id hid
    obtain ⟨item, hitem, htext⟩ := List.mem_map.1 ((hmem id).1 hid)
    obtain ⟨own, hown, hform⟩ := regular.kebab items hread item hitem
    exact Value.text.inj (htext.symm.trans hown) ▸ hform
  have follows : Bench.Follows store items
      ⟨{ store with prompts, recipes := some items }, [], admissions⟩ :=
    ⟨rfl, rfl, ⟨[], rfl, rfl, fun _ hentry => absurd hentry List.not_mem_nil⟩,
      fun h => absurd rfl h⟩
  have progress := Order.ends_recipes_progress regular.keyed regular.aborts
    (regular.asked hread) (increasing.imp ne_of_lt) kebab _ _ _ _ _ ⟨rfl, follows⟩ hfold
  exact ⟨backend, project, _, _, rfl, hfind, hproject,
    regular.accounts hregistry hread hadmissions increasing hmem progress⟩

def draftDocument : Value := .mapping
  [(.text "id", .text "draft"), (.text "steps", .list [.mapping
    [(.text "id", .text "write"), (.text "agent", .text "writer"),
     (.text "task", .text "Write.")]])]

def idleDocument : Value := .mapping [(.text "id", .text "idle")]

def draftTree : Tree := .directory
  [("04_agents", .directory [("writer.yml", ofFields
      [("id", .text "writer"), ("purpose", .text "To write.")])]),
   ("05_recipes", .directory [("draft.yml", .file ⟨.document draftDocument, false⟩),
      ("idle.yml", .file ⟨.document idleDocument, false⟩)])]

def draftRecipe : Recipe := (Recipe.ofValue draftDocument).toOption.getD default

def idleRecipe : Recipe := (Recipe.ofValue idleDocument).toOption.getD default

/-- A recipe with a step, and one without. -/
def draftItems : Collection.Items Recipe :=
  [(.text "draft", ⟨.root, ["05_recipes", "draft.yml"]⟩, draftRecipe),
   (.text "idle", ⟨.root, ["05_recipes", "idle.yml"]⟩, idleRecipe)]

/-- A store that has read its recipes. -/
def draftStore : Store := { ofSettings draftTree shopSettings with recipes := some draftItems }

theorem reading_draft : (Kind.recipes.reading draftStore).2 = .ok draftItems := by
  have hlisting : draftTree.filesBelow ⟨.root, ["05_recipes"]⟩ =
      .ok [["draft.yml"], ["idle.yml"]] := by with_unfolding_all rfl
  have hlisted : List.filter (Manifests.isListed []) [["draft.yml"], ["idle.yml"]] =
      [["draft.yml"], ["idle.yml"]] := by decide +kernel
  have hfiles : Manifests.files draftTree ⟨.root, ["05_recipes"]⟩ [] = .ok
      [⟨.root, ["05_recipes", "draft.yml"]⟩, ⟨.root, ["05_recipes", "idle.yml"]⟩] := by
    rw [Manifests.files, hlisting, Attempt.bind_eq_of_ok rfl, hlisted]
    exact congrArg Except.ok (Path.sort_eq_self (by decide +kernel))
  have hreading : Kind.recipes.reading draftStore = Collection.read draftTree
      ⟨.root, ["05_recipes"]⟩ "recipes" Recipe.id (fun _ v => Recipe.ofValue v) [] := rfl
  rw [hreading, Collection.read, hfiles]
  with_unfolding_all rfl

def draftOrder : Order := ⟨{ (default : Project) with id := .text "shop" }, "today", .builtIn⟩

theorem exists_recipes_draft :
    ∃ g s, exec (draftOrder.recipes (.text "cursor")) (draftStore, []) = (.ok g, s) := by
  have hsort : Value.sorted? (["draft", "idle"].map .text) =
      some (["draft", "idle"].map .text) := by
    rw [Value.sorted?_texts, List.mergeSort_of_pairwise (by decide +kernel)]
  have hids : ids draftItems = .ok [.text "draft", .text "idle"] := by
    have htexts : draftItems.map (·.1) = ["draft", "idle"].map Value.text := rfl
    rw [ids, htexts, hsort]
    rfl
  let ready : Store := { draftStore with prompts := some [] }
  have hadmissions : exec Store.admissions (draftStore, []) = (.ok ⟨[], []⟩, ready, []) := by
    with_unfolding_all rfl
  have hlist : exec (Bench.inStore listRecipes) (⟨ready, [], ⟨[], []⟩⟩, []) =
      (.ok [.text "draft", .text "idle"], ⟨ready, [], ⟨[], []⟩⟩, []) := by
    have hitems : exec recipeItems (ready, []) = (.ok draftItems, ready, []) := rfl
    rw [Bench.inStore, exec_within, listRecipes, exec_bind_ok hitems, hids]
    rfl
  unfold Order.recipes
  rw [exec_bind_ok (exec_attempt _ _ |>.trans (by with_unfolding_all rfl)),
    exec_bind_ok (exec_state _ _),
    exec_bind_ok (exec_attempt _ _ |>.trans (by with_unfolding_all rfl)),
    exec_bind_ok (exec_attempt _ _ |>.trans (by with_unfolding_all rfl)), Bool.not_true,
    if_neg Bool.false_ne_true, Bench.fresh, exec_bind_ok hadmissions, exec_within,
    exec_bind_ok (exec_attempt _ _ |>.trans (by with_unfolding_all rfl)), exec_bind_ok hlist]
  exact exists_exec_of_isOk (by decide +kernel)

theorem keepsValues_draft : draftTree.KeepsValues Value.Normal := by
  simp [draftTree, draftDocument, idleDocument, ofFields, Tree.KeepsValues, Tree.AllKeepValues,
    Value.Normal, Value.AllNormal, Value.EntriesNormal]

theorem regular_draft : draftStore.Regular := by
  refine ⟨fun items h => ?_, fun kind items h => ?_, keepsValues_draft⟩
  · cases h
    intro item hitem
    rcases List.mem_pair.1 hitem with rfl | rfl
    · exact ⟨"draft", rfl, by decide +kernel⟩
    · exact ⟨"idle", rfl, by decide +kernel⟩
  · cases kind with
    | recipes =>
        cases h
        exact reading_draft
    | _ => cases h

/-- One recipe is written, and one is passed over. -/
theorem accounts_of_recipes_draft :
    draftStore.Regular ∧ draftOrder.registry = .builtIn ∧
      draftStore.settings.dirPath "recipes" = .ok ⟨.root, ["05_recipes"]⟩ ∧
      draftStore.tree.isDirectory ⟨.root, ["05_recipes"]⟩ = .ok true ∧
      ∃ g last log, (draftOrder.recipes (.text "cursor")).runFrom draftStore = (.ok g, last, log) ∧
        ∃ directory full empty, "draft" ∈ full ∧ "idle" ∈ empty ∧
          draftOrder.Accounts draftStore "cursor" directory full empty g last := by
  have hsource : draftStore.settings.dirPath "recipes" = .ok ⟨.root, ["05_recipes"]⟩ := by
    with_unfolding_all rfl
  have hthere : draftStore.tree.isDirectory ⟨.root, ["05_recipes"]⟩ = .ok true := by
    with_unfolding_all rfl
  have included (id : String) : (draftOrder.project.aiTools.listsFor .recipes).Includes id := by
    have hlists : draftOrder.project.aiTools.listsFor .recipes = ⟨[], []⟩ := rfl
    rw [hlists, Admission.Includes, if_pos rfl]
    exact List.not_mem_nil
  obtain ⟨g, ⟨last, log⟩, hrun⟩ := exists_recipes_draft
  refine ⟨regular_draft, rfl, hsource, hthere, g, last, log, hrun, ?_⟩
  obtain ⟨backend, project, full, empty, htool, -, -, accounts⟩ :=
    accounts_of_recipes regular_draft rfl hsource hthere hrun
  rw [← Value.text.inj htool] at accounts
  refine ⟨_, full, empty, ?_, ?_, accounts⟩
  · have hfilled : draftRecipe.steps.length = 1 := by decide +kernel
    have hasks : draftOrder.Asks draftStore "cursor" "draft" draftRecipe :=
      ⟨by with_unfolding_all rfl, .inl (by with_unfolding_all rfl), included "draft"⟩
    exact (accounts.mem_full "draft").2 ⟨_, hasks, List.ne_nil_of_length_eq_add_one hfilled⟩
  · have hempty : idleRecipe.steps = [] := by with_unfolding_all rfl
    have hasks : draftOrder.Asks draftStore "cursor" "idle" idleRecipe :=
      ⟨by with_unfolding_all rfl, .inl (by with_unfolding_all rfl), included "idle"⟩
    exact (accounts.mem_empty "idle").2 ⟨_, hasks, hempty⟩

end Store

end Playbook
