import Playbook.Generation
import Playbook.Proofs.Recipe.Messages
import Playbook.Proofs.Store.Reading

/-!
# Messages of a generation

Only one place writes that a feature names a recipe that is not there. The
other messages differ from it by their level, by their first character, or by
what follows the id of the feature.
-/

namespace Playbook

open Work

/-- The message that a feature names a recipe that is not there. -/
def Order.missingRecipe (feature recipe : Value) : LogEntry :=
  warn ("Feature " ++ feature.display ++ " references missing recipe '" ++ recipe.display ++
    "'; skipping")

/-- The message does not tell of a missing recipe, whatever feature has an id without blanks. -/
def TellsNoRecipe (entry : LogEntry) : Prop :=
  ∀ (id : String) (recipe : Value), ' ' ∉ id.toList →
    entry ≠ Order.missingRecipe (.text id) recipe

namespace TellsNoRecipe

theorem of_level {level : Level} (h : level ≠ .warning) (message : String) :
    TellsNoRecipe ⟨level, message⟩ := by
  rintro id recipe - heq
  exact h (congrArg LogEntry.level heq)

theorem of_head {message : String} (h : message.toList.head? ≠ some 'F') :
    TellsNoRecipe (warn message) := by
  rintro id recipe - heq
  refine h ?_
  rw [show message = (Order.missingRecipe (.text id) recipe).message from
    congrArg LogEntry.message heq]
  simp [Order.missingRecipe, warn]

private theorem eq_of_append_blank {front front' back back' : List Char} (h : ' ' ∉ front)
    (h' : ' ' ∉ front') (heq : front ++ ' ' :: back = front' ++ ' ' :: back') : back = back' := by
  induction front generalizing front' with
  | nil =>
      cases front' with
      | nil => exact List.tail_eq_of_cons_eq heq
      | cons c front' =>
          cases heq
          exact absurd List.mem_cons_self h'
  | cons c front ih =>
      cases front' with
      | nil =>
          cases heq
          exact absurd List.mem_cons_self h
      | cons d front' =>
          exact ih (mt (List.mem_cons_of_mem _) h) (mt (List.mem_cons_of_mem _) h')
            (List.cons.inj heq).2

theorem of_unknownTool {id : String} (h : ' ' ∉ id.toList) (tool : Value) :
    TellsNoRecipe (warn ("Feature " ++ (Value.text id).display ++ " targets unknown tool '" ++
      tool.display ++ "'; skipping")) := by
  intro id' recipe h' heq
  have hmessage := congrArg (String.toList ·.message) heq
  simp only [warn, Order.missingRecipe, String.toList_append, List.append_assoc] at hmessage
  have hrest := eq_of_append_blank h h' (List.append_cancel_left hmessage)
  cases (List.cons.inj hrest).1

end TellsNoRecipe

/-! ## Reading -/

theorem Manifests.tellsNoRecipe_of_loadAll {tree : Tree} {paths : List Path} :
    ∀ entry ∈ (loadAll tree paths).1, TellsNoRecipe entry := by
  intro entry hentry
  rw [loadAll_log] at hentry
  obtain ⟨path, -, hskipped⟩ := List.mem_filterMap.1 hentry
  rw [skipped?] at hskipped
  split at hskipped
  · cases hskipped
    exact .of_head (by simp)
  · cases hskipped

namespace Collection

variable {α : Type} {kind : String} {id : α → Value} {parse : Path → Value → Attempt α}

theorem tellsNoRecipe_of_addDocument {items : Items α} {path : Path} {v : Value} :
    ∀ entry ∈ (addDocument kind id parse items path v).1, TellsNoRecipe entry := by
  intro entry hentry
  unfold addDocument at hentry
  split at hentry
  · split at hentry
    · obtain rfl := List.mem_singleton.1 hentry
      exact .of_head (by simp)
    · cases hentry
  · dsimp only at hentry
    split at hentry
    · cases hentry
    · split at hentry
      · obtain rfl := List.mem_singleton.1 hentry
        exact .of_head (by simp)
      · cases hentry

theorem tellsNoRecipe_of_addDocuments (documents : List (Path × Value)) (items : Items α) :
    ∀ entry ∈ (addDocuments kind id parse items documents).1, TellsNoRecipe entry := by
  induction documents generalizing items with
  | nil => exact fun _ hentry => absurd hentry List.not_mem_nil
  | cons document documents ih =>
      have hfirst := @tellsNoRecipe_of_addDocument α kind id parse items document.1 document.2
      rw [addDocuments]
      rcases hadd : addDocument kind id parse items document.1 document.2 with ⟨log, _ | more⟩
      · rw [hadd] at hfirst
        exact hfirst
      · rw [hadd] at hfirst
        intro entry hentry
        rcases List.mem_append.1 hentry with hentry | hentry
        · exact hfirst entry hentry
        · exact ih more entry hentry

theorem tellsNoRecipe_of_read {tree : Tree} {directory : Path} {skipped : List String} :
    ∀ entry ∈ (read tree directory kind id parse skipped).1, TellsNoRecipe entry := by
  intro entry hentry
  unfold read at hentry
  split at hentry
  · cases hentry
  · rename_i paths _
    have hload := @Manifests.tellsNoRecipe_of_loadAll tree paths
    split at hentry
    · rename_i hresult
      rw [hresult] at hload
      exact hload entry hentry
    · rename_i hresult
      rw [hresult] at hload
      rcases List.mem_append.1 hentry with hentry | hentry
      · exact hload entry hentry
      · exact tellsNoRecipe_of_addDocuments _ _ entry hentry

end Collection

/-- Reading the shelf does not tell of a missing recipe. -/
def Shelf.TellsNoRecipe {α : Type} (shelf : Shelf α) : Prop :=
  ∀ log outcome, shelf = .unread log outcome → ∀ entry ∈ log, Playbook.TellsNoRecipe entry

theorem Store.agentShelf_tellsNoRecipe (store : Store) : store.agentShelf.TellsNoRecipe := by
  intro log outcome hshelf entry hentry
  unfold agentShelf at hshelf
  split at hshelf
  · cases hshelf
  · cases hshelf
    split at hentry
    · cases hentry
    · exact Collection.tellsNoRecipe_of_read entry hentry

/-! ## Compiling -/

theorem Shelf.writes_items {α : Type} :
    Writes Playbook.TellsNoRecipe (Shelf.TellsNoRecipe (α := α)) Shelf.TellsNoRecipe
      (fun _ => True) items := by
  unfold items
  refine Writes.state.bind fun shelf hshelf => ?_
  cases shelf with
  | ready items => exact Writes.pure trivial
  | unread log outcome =>
      refine (Writes.tell (hshelf log outcome rfl)).bind fun _ _ => ?_
      refine (Writes.attempt fun _ _ => trivial).bind fun items _ => ?_
      exact (Writes.setState fun _ _ => nofun).bind fun _ _ => Writes.pure trivial

theorem AgentDesk.writes_get?_any (id : Value) :
    Writes TellsNoRecipe (fun desk : AgentDesk => desk.shelf.TellsNoRecipe)
      (fun desk => desk.shelf.TellsNoRecipe) (fun _ => True) (get? id) := by
  have hshelf : Writes TellsNoRecipe (Shelf.TellsNoRecipe (α := Agent)) Shelf.TellsNoRecipe
      (fun _ => True) (Shelf.get? id) := by
    unfold Shelf.get?
    refine Shelf.writes_items.bind fun found _ => ?_
    exact Writes.ite (fun _ => Writes.pure trivial) fun _ => Writes.throw _
  unfold get?
  refine Writes.stopped (Writes.throw _) (Writes.state.bind fun desk _ => ?_)
  split
  · exact Writes.pure trivial
  · refine Writes.bind (hshelf.within (fun _ h => h) fun _ _ _ h => h) fun agent _ => ?_
    exact (Writes.change fun _ h => h).bind fun _ _ => Writes.pure trivial

theorem Admissions.writes_admits (category : Category) (id : Value) (project : Option Project) :
    Writes TellsNoRecipe (fun _ => True) (fun _ => True) (fun _ => True)
      (admits category id project) := by
  have hreport (project : Value) : Writes TellsNoRecipe (fun _ => True) (fun _ => True)
      (fun _ => True) (reportConflict project category) := by
    unfold reportConflict
    refine Writes.stopped (Writes.throw _) (Writes.state.any.bind fun admissions _ => ?_)
    refine Writes.ite (fun _ => (Writes.setState trivial).bind fun _ _ => ?_)
      fun _ => Writes.pure trivial
    exact Writes.say (.of_level (by decide) _)
  have hlists : Writes TellsNoRecipe (fun _ => True) (fun _ => True) (fun _ => True)
      (lists project category) := by
    unfold lists
    cases project with
    | none => exact Writes.pure trivial
    | some p => exact Writes.stopped (hreport _) (Writes.pure trivial)
  unfold admits
  exact hlists.bind fun _ _ => Writes.pure trivial

theorem Partition.tellsNoRecipe_of_ofRecipe {recipe : Recipe} {partition : Partition}
    {reports : Log} (h : ofRecipe recipe = .ok (partition, reports)) :
    ∀ entry ∈ reports, TellsNoRecipe entry := by
  have hunknown (names : List String) :
      ∀ entry ∈ names.map (unknownWarning recipe.id), TellsNoRecipe entry := by
    intro entry hentry
    obtain ⟨name, -, rfl⟩ := List.mem_map.1 hentry
    exact .of_head (by simp)
  rw [ofRecipe] at h
  split at h
  · cases h
    simp
  · split at h
    · cases h
      simp
    · split at h
      · cases h
      · dsimp only at h
        split at h
        · cases h
          exact hunknown _
        · cases h
          intro entry hentry
          rcases List.mem_append.1 hentry with hentry | hentry
          · exact hunknown _ entry hentry
          · obtain ⟨gap, -, rfl⟩ := List.mem_map.1 hentry
            exact .of_head (by simp)

namespace Setting

variable (setting : Setting) (recipe : Recipe)

theorem lowersWith_any :
    LowersWith TellsNoRecipe (fun run => run.agents.shelf.TellsNoRecipe) setting recipe := by
  intro step _ index number backend
  unfold lowerStep
  refine (Writes.attempt fun _ _ => trivial).bind fun title _ => ?_
  refine Writes.bind ((AgentDesk.writes_get?_any _).within (fun _ h => h) fun _ _ _ h => h)
    fun found _ => ?_
  cases found with
  | none =>
      refine (Writes.tell fun entry hentry => ?_).bind fun _ _ => Writes.pure trivial
      obtain rfl := List.mem_singleton.1 hentry
      exact .of_head (by simp)
  | some agent =>
      refine Writes.bind (Q := fun _ => True) ?_ fun excluded _ => ?_
      · unfold excludedBy?
        cases setting.project with
        | none => exact Writes.pure trivial
        | some project =>
            exact Writes.bind ((Admissions.writes_admits _ _ _).within (fun _ _ => trivial)
              fun _ _ h _ => h) fun _ _ => Writes.pure trivial
      · cases excluded with
        | none => exact Writes.attempt fun _ _ => trivial
        | some project =>
            refine (Writes.tell fun entry hentry => ?_).bind fun _ _ => Writes.pure trivial
            obtain rfl := List.mem_singleton.1 hentry
            exact .of_head (by simp)

theorem writes_compile_any (tool : Value) (time : String) :
    Writes TellsNoRecipe (fun run => run.agents.shelf.TellsNoRecipe)
      (fun run => run.agents.shelf.TellsNoRecipe) (fun _ => True)
      (setting.compile recipe tool time) :=
  (setting.lowersWith_any recipe).compile
    (fun _ _ h => Partition.tellsNoRecipe_of_ofRecipe h) tool time

end Setting

/-! ## Scripts -/

theorem Store.recipes_keepAgents (store : Store) (shelf : Shelf Agent) :
    (store.keepAgents shelf).recipes = store.recipes := by
  unfold keepAgents
  split <;> rfl

/-- The recipes of a bench, once they were read. -/
def Bench.Holds (recipes : Collection.Items Recipe) (bench : Bench) : Prop :=
  bench.store.recipes = some recipes

namespace Order

variable {recipes : Collection.Items Recipe} (order : Order)

theorem writes_compile (feature : Option Feature) (recipe : Recipe) (tool : String) :
    Writes TellsNoRecipe (Bench.Holds recipes) (Bench.Holds recipes) (fun _ => True)
      (order.compile feature recipe tool) := by
  unfold compile
  refine Writes.state.bind fun bench _ => ?_
  refine (((order.setting bench.store.settings feature).writes_compile_any recipe (.text tool)
    order.time).within (fun bench _ => bench.store.agentShelf_tellsNoRecipe) ?_).caught.bind
      fun result _ => ?_
  · intro bench run hholds _
    exact (bench.store.recipes_keepAgents run.agents.shelf).trans hholds
  · split
    · exact Writes.pure trivial
    · exact Writes.pure trivial
    · exact Writes.throw _

theorem writes_write (path : Path) (text : String) :
    Writes TellsNoRecipe (Bench.Holds recipes) (Bench.Holds recipes) (fun _ => True)
      (Bench.inStore (write path text)) := by
  have hwrite : Writes TellsNoRecipe (fun store : Store => store.recipes = some recipes)
      (fun store => store.recipes = some recipes) (fun _ => True) (write path text) := by
    unfold write
    refine Writes.state.bind fun store hstore => ?_
    rcases store.tree.writeScript store.settings.root path text with ⟨tree, outcome⟩
    refine Writes.bind (Writes.setState hstore) fun _ _ => ?_
    refine (Writes.attempt fun _ _ => trivial).bind fun _ _ => ?_
    exact Writes.say (.of_level (by decide) _)
  exact hwrite.within (fun _ h => h) fun _ _ _ h => h

/-- The scripts of a feature with an id without blanks. -/
theorem writes_featureScripts (wanted : List Value) {feature : Feature} {id : String}
    (hid : feature.id = .text id) (hplain : ' ' ∉ id.toList) (recipe : Recipe)
    (tools : List Value) (done : Generation) :
    Writes TellsNoRecipe (Bench.Holds recipes) (Bench.Holds recipes) (fun _ => True)
      (order.featureScripts wanted feature recipe tools done) := by
  induction tools generalizing done with
  | nil => exact Writes.pure trivial
  | cons tool tools ih =>
      unfold featureScripts
      refine Writes.narrowed (Writes.throw _) (ih done) ?_
      refine (Writes.attempt fun _ _ => trivial).bind fun found _ => ?_
      cases found with
      | none =>
          refine (Writes.tell fun entry hentry => ?_).bind fun _ _ => ?_
          · rw [List.mem_singleton.1 hentry, hid]
            exact .of_unknownTool hplain tool
          · refine (Writes.attempt fun _ _ => trivial).bind fun unit _ => ?_
            exact (Writes.attempt fun _ _ => trivial).bind fun shown _ => ih _
      | some backend =>
          refine (order.writes_compile (some feature) recipe backend.id).bind fun result _ => ?_
          cases result with
          | error fault =>
              refine (Writes.say (.of_level (by decide) _)).bind fun _ _ => ?_
              exact (Writes.attempt fun _ _ => trivial).bind fun unit _ => Writes.pure trivial
          | ok text =>
              refine Writes.state.bind fun bench _ => ?_
              refine (Writes.attempt fun _ _ => trivial).bind fun directory _ => ?_
              exact (writes_write _ text).bind fun _ _ => ih _

end Order

end Playbook
