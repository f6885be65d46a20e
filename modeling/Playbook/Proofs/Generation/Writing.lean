import Playbook.Generation
import Playbook.Proofs.Outcome
import Playbook.Proofs.Store.Items
import Playbook.Proofs.Store.Scripts

/-!
# What generating scripts changes

All that generating changes in a repository is that scripts are written. The
settings stay, and the recipes are read before the first script is written, so
that they are those of the repository as it was.
-/

namespace Playbook

open Work
open Tree (Scripted)

namespace Store

/-- The recipes that were kept, else what reading them gives. -/
def recipesRead (store : Store) : Attempt (Collection.Items Recipe) :=
  match store.recipes with
  | some items => .ok items
  | none => store.readRecipes.2

/-- A store after scripts may have been written and collections may have been read. -/
structure Onward (store mid : Store) : Prop where
  tree : Scripted store.tree mid.tree
  settings : mid.settings = store.settings
  recipes : mid.recipesRead = store.recipesRead

/-- A later store that has read its recipes. -/
structure Ready (store mid : Store) : Prop extends Onward store mid where
  read : mid.recipes.isSome = true

variable {store mid : Store}

theorem onward_refl (store : Store) : store.Onward store := ⟨.refl, rfl, rfl⟩

theorem Ready.withTree {tree : Tree} (h : store.Ready mid) (hscripted : Scripted mid.tree tree) :
    store.Ready { mid with tree } := by
  refine ⟨⟨h.tree.trans hscripted, h.settings, ?_⟩, h.read⟩
  obtain ⟨items, hitems⟩ := Option.isSome_iff_exists.1 h.read
  rw [← h.recipes, recipesRead, recipesRead, hitems]

theorem Onward.keepAgents (h : store.Onward mid) (shelf : Shelf Agent) :
    store.Onward (mid.keepAgents shelf) := by
  unfold Store.keepAgents
  split
  · exact ⟨h.tree, h.settings, h.recipes⟩
  · exact h

theorem Ready.keepAgents (h : store.Ready mid) (shelf : Shelf Agent) :
    store.Ready (mid.keepAgents shelf) := by
  refine ⟨h.toOnward.keepAgents shelf, ?_⟩
  unfold Store.keepAgents
  split <;> exact h.read

/-! ## Reading -/

theorem exec_recipeItems (store : Store) (log : Log) :
    (exec recipeItems (store, log)).1 = store.recipesRead := by
  unfold recipeItems kept recipesRead
  rw [exec_bind_ok (exec_state _ _)]
  dsimp only
  cases store.recipes with
  | some items => rfl
  | none =>
      rw [exec_bind_ok (exec_tell _ _ _)]
      cases hread : store.readRecipes.2 with
      | error fault => rfl
      | ok items => rfl

theorem Faithful.recipes (faithful : store.Faithful) {items : Collection.Items Recipe}
    (h : store.recipesRead = .ok items) : (Kind.recipes.reading store).2 = .ok items :=
  @Faithful.reading store .recipes faithful items _
    (Prod.ext ((exec_recipeItems store []).trans h) rfl)

theorem ends_recipeItems :
    Ends store.Onward (fun items mid => store.recipesRead = .ok items ∧ store.Ready mid)
      recipeItems := by
  unfold recipeItems kept
  refine Ends.get fun mid hmid => ?_
  have hread := hmid.recipes
  unfold recipesRead at hread
  dsimp only
  cases hrecipes : mid.recipes with
  | some items =>
      rw [hrecipes] at hread
      refine Ends.pure ?_
      rintro _ rfl
      exact ⟨hread.symm, hmid, by rw [hrecipes]; rfl⟩
  | none =>
      rw [hrecipes] at hread
      refine (Ends.tell _).bind fun _ => ?_
      refine Ends.attempt_eq.bind fun items => Ends.assuming fun hitems => ?_
      rw [hitems] at hread
      have hready : store.Ready { mid with recipes := some items } :=
        ⟨⟨hmid.tree, hmid.settings, hread⟩, rfl⟩
      exact (Ends.setState hready).bind fun _ => Ends.pure fun _ hs => ⟨hread.symm, hs⟩

/-- A recipe that is looked up later is that of the store as it was. -/
theorem ends_getRecipe (id : Value) :
    Ends store.Onward (fun found mid => ((getRecipe id).runFrom store).1 = .ok found ∧
      store.Ready mid) (getRecipe id) := by
  unfold getRecipe
  refine ends_recipeItems.bind fun items => Ends.assuming fun hitems => ?_
  refine Ends.attempt_eq.bind fun found => Ends.assuming fun hfound => ?_
  refine Ends.pure fun mid hs => ⟨?_, hs⟩
  have hexec := exec_recipeItems store []
  rw [hitems] at hexec
  rw [runFrom_eq, exec_bind_ok (Prod.ext hexec rfl), hfound]
  rfl

theorem ends_recipePath (id : Value) :
    Ends store.Onward (fun _ => store.Ready) (recipePath id) := by
  unfold recipePath
  refine ends_recipeItems.bind fun items => Ends.assuming fun _ => ?_
  exact Ends.attempt.bind fun found => Ends.pure fun _ hs => hs

theorem ends_listRecipes : Ends store.Onward (fun _ => store.Ready) listRecipes := by
  unfold listRecipes
  exact ends_recipeItems.bind fun items => Ends.assuming fun _ => Ends.attempt

theorem ends_admissions : Ends store.Onward (fun _ => store.Onward) admissions := by
  have hitems : Ends store.Onward (fun _ => store.Onward) promptItems := by
    unfold promptItems kept
    refine Ends.get fun mid hmid => ?_
    split
    · refine Ends.pure ?_
      rintro _ rfl
      exact hmid
    · refine (Ends.tell _).bind fun _ => ?_
      refine Ends.attempt.bind fun items => ?_
      have honward : store.Onward { mid with prompts := some items } :=
        ⟨hmid.tree, hmid.settings, hmid.recipes⟩
      exact (Ends.setState honward).bind fun _ => Ends.pure fun _ hs => hs
  have hpaths : Ends store.Onward (fun _ => store.Onward) promptPaths := by
    unfold promptPaths
    exact hitems.bind fun items => Ends.pure fun _ hs => hs
  unfold admissions
  exact hpaths.bind fun paths => Ends.pure fun _ hs => hs

/-! ## Writing -/

/-- A script comes into a directory under a name that ends as those of scripts do. -/
theorem ends_write (directory : Path) (name text : String) :
    Ends store.Ready (fun _ => store.Ready)
      (Order.write (directory.child (name ++ ".sh")) text) := by
  obtain ⟨init, last, hnames, hscript⟩ := directory.exists_script name
  unfold Order.write
  refine Ends.get fun mid hmid => ?_
  have hwritten := @Tree.scripted_writeScript mid.tree mid.settings.root
    (directory.child (name ++ ".sh")) init last text hnames hscript
  rcases hresult :
    mid.tree.writeScript mid.settings.root (directory.child (name ++ ".sh")) text with
    ⟨tree, outcome⟩
  rw [hresult] at hwritten
  refine (Ends.setState (hmid.withTree hwritten)).bind fun _ => ?_
  exact Ends.attempt.bind fun _ => Ends.tell _

end Store

/-! ## Scripts of recipes -/

namespace Order

variable {store : Store} (order : Order)

theorem ends_inStore {α : Type} {work : Work Store α} {P : Store → Prop} {Q : α → Store → Prop}
    (h : Ends P Q work) :
    Ends (fun bench : Bench => P bench.store) (fun a bench => Q a bench.store)
      (Bench.inStore work) :=
  h.within (fun _ hs => hs) fun _ _ _ _ ht => ht

/-- A compilation keeps what reading the agents keeps. -/
theorem ends_compile {P : Store → Prop}
    (hkeeps : ∀ mid shelf, P mid → P (Store.keepAgents mid shelf)) (feature : Option Feature)
    (recipe : Recipe) (tool : String) :
    Ends (fun bench : Bench => P bench.store) (fun _ bench => P bench.store)
      (order.compile feature recipe tool) := by
  unfold compile
  refine Ends.get fun bench hbench => ?_
  have hrun (setting : Setting) : Ends (fun t => t = bench) (fun _ bench => P bench.store)
      (Work.caught (Bench.inRun (setting.compile recipe (.text tool) order.time))) := by
    refine Ends.caughtWithin _ ?_
    rintro _ run rfl
    exact hkeeps _ _ hbench
  refine (hrun _).bind fun result => ?_
  split
  · exact Ends.pure fun _ hs => hs
  · exact Ends.pure fun _ hs => hs
  · exact Ends.throw _

/-- A report that names no feature. -/
def OfRecipes (g : Generation) : Prop := ∀ script ∈ g.written, script.feature = none

theorem OfRecipes.append {g g' : Generation} (h : OfRecipes g) (h' : OfRecipes g') :
    OfRecipes (g.append g') := by
  intro script hscript
  exact (List.mem_append.1 hscript).elim (h script) (h' script)

/-- What a recipe comes to, if what is read and compiled for it keeps what holds before. -/
theorem ends_recipe_of {P : Store → Prop} {Q : Generation → Store → Prop} (backend : Backend)
    (directory : Path) (id : Value)
    (hread : Ends P (fun _ => P) (Store.getRecipe id))
    (hplace : Ends P (fun _ => P) (Store.recipePath id))
    (hkeeps : ∀ mid shelf, P mid → P (Store.keepAgents mid shelf))
    (hnone : ∀ g mid, g.written = [] → P mid → Q g mid)
    (hwrite : ∀ text, let path := directory.child (id.display ++ ".sh")
      Ends P (fun _ => Q (.ofWritten ⟨path, id, backend.id, none⟩)) (write path text)) :
    Ends (fun bench : Bench => P bench.store) (fun g bench => Q g bench.store)
      (order.recipe backend directory id) := by
  have hnothing (g : Generation) (hg : g.written = []) :
      Ends (fun bench : Bench => P bench.store) (fun g bench => Q g bench.store) (pure g) :=
    Ends.pure fun bench hs => hnone g bench.store hg hs
  have hadmits : Ends (fun bench : Bench => P bench.store) (fun _ bench => P bench.store)
      (Bench.inAdmissions (Admissions.admits .recipes id (some order.project))) :=
    Ends.anyWithin _ fun _ _ hs => hs
  unfold recipe
  refine (ends_inStore hread).bind fun found => ?_
  cases found with
  | none => exact Ends.throw _
  | some recipe =>
      refine Ends.ite (fun _ => hnothing _ rfl) fun _ => hadmits.bind fun admitted => ?_
      refine Ends.ite (fun _ => (Ends.tell _).bind fun _ => hnothing _ rfl) fun _ => ?_
      unfold recipeScript
      refine (order.ends_compile hkeeps none recipe backend.id).bind fun result => ?_
      cases result with
      | error fault =>
          exact (ends_inStore hplace).bind fun place =>
            (Ends.tell _).bind fun _ => hnothing _ rfl
      | ok text => exact (ends_inStore (hwrite text)).bind fun _ => Ends.pure fun _ hs => hs

theorem ends_recipe (backend : Backend) (directory : Path) (id : Value) :
    Ends (fun bench : Bench => store.Ready bench.store)
      (fun g bench => OfRecipes g ∧ store.Ready bench.store)
      (order.recipe backend directory id) := by
  refine order.ends_recipe_of (P := store.Ready) (Q := fun g mid => OfRecipes g ∧ store.Ready mid)
    backend directory id ?_ ?_ (fun _ shelf h => h.keepAgents shelf) (fun g mid hg hs => ?_)
    fun text => ?_
  · exact (Store.ends_getRecipe id).mono (fun _ hs => hs.toOnward) fun _ _ h => h.2
  · exact (Store.ends_recipePath id).mono (fun _ hs => hs.toOnward) fun _ _ h => h
  · exact ⟨by simp [OfRecipes, hg], hs⟩
  · exact (Store.ends_write directory id.display text).mono (fun _ hs => hs)
      fun _ _ hs => ⟨by simp [OfRecipes, Generation.ofWritten], hs⟩

/-- Works whose reports are put together one after the other. -/
theorem ends_collected {α σ : Type} {work : α → Work σ Generation} {K : Generation → σ → Prop}
    {l : List α} (h : ∀ done, ∀ a ∈ l, Ends (K done) (fun g => K (done.append g)) (work a))
    (done : Generation) :
    Ends (K done) K (l.foldlM (fun done a => do return done.append (← work a)) done) :=
  Ends.foldlM (fun done a ha => (h done a ha).bind fun _ => Ends.pure fun _ hs => hs)
    fun _ hs => hs

theorem ends_fresh {α : Type} {J : α → Prop} {work : Work Bench α}
    (h : Ends (fun bench : Bench => store.Onward bench.store)
      (fun a bench => J a ∧ store.Onward bench.store) work) :
    Ends store.Onward (fun a mid => J a ∧ store.Onward mid) (Bench.fresh work) := by
  unfold Bench.fresh
  exact Store.ends_admissions.bind fun admissions =>
    h.within (fun _ hs => hs) fun _ _ _ _ ht => ht

/-- Generating the scripts of the recipes names no feature. -/
theorem ends_recipes (tool : Value) :
    Ends store.Onward (fun g mid => OfRecipes g ∧ store.Onward mid) (order.recipes tool) := by
  unfold recipes
  refine Ends.attempt.bind fun backend => Ends.get fun mid hmid => ?_
  refine Ends.attempt.bind fun source => ?_
  refine Ends.attempt.bind fun there => Ends.ite (fun _ => ?_) fun _ => ?_
  · refine (Ends.tell _).bind fun _ => Ends.pure ?_
    rintro _ rfl
    exact ⟨by simp [OfRecipes, Generation.ofSkipped], hmid⟩
  · refine (ends_fresh ?_).mono (fun _ heq => heq ▸ hmid) fun _ _ h => h
    refine Ends.attempt.bind fun directory => ?_
    refine (ends_inStore Store.ends_listRecipes).bind fun ids => ?_
    have hrecipes := @ends_collected _ _ (order.recipe backend directory)
      (fun done bench => OfRecipes done ∧ store.Ready bench.store) ids
      (fun done id _ => Ends.assuming fun hdone =>
        (order.ends_recipe backend directory id).mono (fun _ hs => hs)
          fun _ _ hs => ⟨hdone.append hs.1, hs.2⟩) .empty
    exact hrecipes.mono (fun _ hs => ⟨by simp [OfRecipes, Generation.empty], hs⟩)
      fun _ _ hs => ⟨hs.1, hs.2.toOnward⟩

/-- The scripts of the recipes for several tools. -/
def recipesFor (tools : List Value) : Work Store Generation :=
  tools.foldlM (fun done tool => do return done.append (← order.recipes tool)) .empty

theorem ends_recipesFor (tools : List Value) :
    Ends store.Onward (fun g mid => OfRecipes g ∧ store.Onward mid) (order.recipesFor tools) := by
  have hrecipes := @ends_collected _ _ order.recipes
    (fun done mid => OfRecipes done ∧ store.Onward mid) tools
    (fun done tool _ => Ends.assuming fun hdone =>
      (order.ends_recipes tool).mono (fun _ hs => hs) fun _ _ hs => ⟨hdone.append hs.1, hs.2⟩)
    .empty
  exact hrecipes.mono (fun _ hs => ⟨by simp [OfRecipes, Generation.empty], hs⟩) fun _ _ hs => hs

end Order

end Playbook
