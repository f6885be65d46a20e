import Mathlib.Data.List.Pairwise
import Playbook.Proofs.Generation.Features
import Playbook.Proofs.Generation.Places

/-!
# Names of generated scripts

The path of a script comes from its tool and its name. A recipe gives a script
its id for a name, a feature its id behind a prefix, so that two scripts have
one path exactly if they are for one tool and have one name.
-/

namespace Playbook

open Work

/-- The name of a script, to which the ending of scripts comes. -/
def WrittenScript.name (script : WrittenScript) : String :=
  match script.feature with
  | none => script.recipe.display
  | some id => "feature-" ++ id.display

namespace Order

/-- A script stands in the directory for its tool, under its name. -/
def Places (order : Order) (settings : Settings) (script : WrittenScript) : Prop :=
  ∃ backend directory, order.registry.find? script.tool = some backend ∧
    order.outputDir settings backend = .ok directory ∧
      script.path = scriptPath directory script.name

/-- Two scripts have one path exactly if they are for one tool and have one name. -/
theorem Places.path_eq_iff {order : Order} (hregistry : order.registry = Registry.builtIn)
    {settings : Settings} {s t : WrittenScript} (hs : order.Places settings s)
    (ht : order.Places settings t) (hname : '/' ∉ s.name.toList) (hname' : '/' ∉ t.name.toList) :
    s.path = t.path ↔ s.tool = t.tool ∧ s.name = t.name := by
  obtain ⟨backend, directory, hfind, hplace, hpath⟩ := hs
  obtain ⟨backend', directory', hfind', hplace', hpath'⟩ := ht
  rw [hpath, hpath']
  constructor
  · intro heq
    rw [scriptPath, scriptPath, Path.child_script hname, Path.child_script hname'] at heq
    obtain ⟨hnames, hlast⟩ := List.append_inj' (congrArg Path.names heq) rfl
    refine ⟨?_, String.append_left_inj _ |>.1 (List.singleton_inj.1 hlast)⟩
    obtain ⟨project, hproject, rfl⟩ := of_outputDir_ok hplace
    obtain ⟨other, hother, rfl⟩ := of_outputDir_ok hplace'
    cases hproject.symm.trans hother
    rw [hregistry] at hfind hfind'
    rw [Registry.names_builtIn hfind, Registry.names_builtIn hfind'] at hnames
    exact (List.cons.inj (List.append_cancel_left hnames)).1
  · rintro ⟨htool, heq⟩
    rw [htool] at hfind
    cases hfind.symm.trans hfind'
    cases hplace.symm.trans hplace'
    rw [heq]

/-- A script for a recipe with an id in kebab case. -/
structure IsForRecipe (order : Order) (settings : Settings) (script : WrittenScript) (id : String) :
    Prop where
  places : order.Places settings script
  feature : script.feature = none
  recipe : script.recipe = .text id
  form : Validation.isKebabCase id = true

/-- A script for a feature with an id in kebab case. -/
structure IsForFeature (order : Order) (settings : Settings) (script : WrittenScript)
    (id : String) : Prop where
  places : order.Places settings script
  feature : script.feature = some (.text id)
  form : Validation.isKebabCase id = true

section

variable {order : Order} {settings : Settings} {s : WrittenScript} {id : String}

theorem IsForRecipe.name_eq (h : order.IsForRecipe settings s id) : s.name = id := by
  rw [WrittenScript.name, h.feature, h.recipe]
  rfl

theorem IsForRecipe.slash_notMem (h : order.IsForRecipe settings s id) : '/' ∉ s.name.toList := by
  rw [h.name_eq]
  exact Validation.slash_notMem h.form

theorem IsForFeature.name_eq (h : order.IsForFeature settings s id) :
    s.name = "feature-" ++ id := by
  rw [WrittenScript.name, h.feature]
  rfl

theorem IsForFeature.slash_notMem (h : order.IsForFeature settings s id) :
    '/' ∉ s.name.toList := by
  rw [h.name_eq, String.toList_append, List.mem_append]
  exact not_or.2 ⟨by decide, Validation.slash_notMem h.form⟩

/-- What the paths of scripts of recipes and of features come down to. -/
theorem nodup_paths_iff (hregistry : order.registry = Registry.builtIn)
    {ofRecipes ofFeatures : List WrittenScript}
    (recipes : ∀ s ∈ ofRecipes, ∃ id, order.IsForRecipe settings s id)
    (features : ∀ s ∈ ofFeatures, ∃ id, order.IsForFeature settings s id)
    (distinct : ofRecipes.Pairwise fun s t => ¬ (s.tool = t.tool ∧ s.recipe = t.recipe)) :
    (ofRecipes.map (·.path)).Nodup ∧
      (((ofRecipes ++ ofFeatures).map (·.path)).Nodup ↔
        (ofFeatures.map fun s => (s.feature, s.tool)).Nodup ∧
          ∀ s ∈ ofRecipes, ∀ t ∈ ofFeatures, s.tool = t.tool → s.name ≠ t.name) := by
  have placed : ∀ s ∈ ofRecipes ++ ofFeatures,
      order.Places settings s ∧ '/' ∉ s.name.toList := by
    intro s hs
    rcases List.mem_append.1 hs with hs | hs
    · obtain ⟨_, hs⟩ := recipes s hs
      exact ⟨hs.places, hs.slash_notMem⟩
    · obtain ⟨_, hs⟩ := features s hs
      exact ⟨hs.places, hs.slash_notMem⟩
  have hpaths {scripts : List WrittenScript} (hsub : scripts ⊆ ofRecipes ++ ofFeatures) :
      (scripts.map (·.path)).Nodup ↔
        scripts.Pairwise fun s t => ¬ (s.tool = t.tool ∧ s.name = t.name) := by
    rw [List.Nodup, List.pairwise_map]
    refine List.Pairwise.iff_of_mem fun {s t} hs ht => not_congr ?_
    obtain ⟨hs, hname⟩ := placed s (hsub hs)
    obtain ⟨ht, hname'⟩ := placed t (hsub ht)
    exact hs.path_eq_iff hregistry ht hname hname'
  have hrecipes : ofRecipes.Pairwise fun s t => ¬ (s.tool = t.tool ∧ s.name = t.name) := by
    refine distinct.imp_of_mem fun {s t} hs ht hne heq => hne ⟨heq.1, ?_⟩
    obtain ⟨id, hs⟩ := recipes s hs
    obtain ⟨other, ht⟩ := recipes t ht
    rw [hs.recipe, ht.recipe, ← hs.name_eq, ← ht.name_eq, heq.2]
  have hfeatures : (ofFeatures.Pairwise fun s t => ¬ (s.tool = t.tool ∧ s.name = t.name)) ↔
      (ofFeatures.map fun s => (s.feature, s.tool)).Nodup := by
    rw [List.Nodup, List.pairwise_map]
    refine List.Pairwise.iff_of_mem fun {s t} hs ht => not_congr ?_
    obtain ⟨id, hs⟩ := features s hs
    obtain ⟨other, ht⟩ := features t ht
    rw [Prod.mk.injEq, and_comm, hs.name_eq, ht.name_eq, hs.feature, ht.feature,
      String.append_right_inj]
    simp
  refine ⟨(hpaths (List.subset_append_left _ _)).2 hrecipes, (hpaths fun _ hs => hs).trans ?_⟩
  rw [List.pairwise_append, hfeatures, and_iff_right hrecipes]
  simp only [not_and, ne_eq]

end

/-! ## Scripts of recipes -/

/-- The ids in which the recipes of a store are listed. -/
def ListsRecipes (store : Store) (listed : List Value) : Prop :=
  ∃ items, store.recipesRead = .ok items ∧ Store.ids items = .ok listed

/-- What is written for a tool: scripts of recipes, each of them at most once. -/
inductive OfTool (order : Order) (store : Store) (tool : Value) (g : Generation) : Prop where
  | nothing (hnone : g.written = [])
  | listed {name : String} {backend : Backend} {directory : Path} {listed ids : List Value}
      (hname : tool = .text name) (hfind : order.registry.find? name = some backend)
      (hplace : order.outputDir store.settings backend = .ok directory)
      (hlisted : ListsRecipes store listed) (hids : ids.Sublist listed)
      (hwritten : g.written = ids.map fun id =>
        ⟨scriptPath directory id.display, id, backend.id, none⟩)

variable {store : Store} (order : Order)

theorem ends_recipe_written (backend : Backend) (directory : Path) (id : Value) :
    Ends (fun _ => True) (fun g _ => g.written = [] ∨
        g.written = [⟨scriptPath directory id.display, id, backend.id, none⟩])
      (order.recipe backend directory id) := by
  exact order.ends_recipe_of (P := fun _ => True) (Q := fun g _ => g.written = [] ∨
      g.written = [⟨scriptPath directory id.display, id, backend.id, none⟩]) backend directory id
    (Ends.any _) (Ends.any _) (fun _ _ _ => trivial) (fun _ _ hg _ => .inl hg)
    fun _ => (Ends.any _).mono (fun _ hs => hs) fun _ _ _ => .inr rfl

theorem ends_ofTool (tool : Value) :
    Ends store.Onward (fun g mid => order.OfTool store tool g ∧ store.Onward mid)
      (order.recipes tool) := by
  unfold recipes
  refine Ends.attempt_eq.bind fun backend => Ends.assuming fun hbackend => ?_
  obtain ⟨name, rfl, hfind⟩ := Registry.of_getNamed_ok hbackend
  refine Ends.get fun mid hmid => Ends.attempt.bind fun source => ?_
  refine Ends.attempt.bind fun there => Ends.ite (fun _ => ?_) fun _ => ?_
  · refine (Ends.tell _).bind fun _ => Ends.pure ?_
    rintro _ rfl
    exact ⟨.nothing rfl, hmid⟩
  · refine (ends_fresh ?_).mono (fun _ heq => heq ▸ hmid) fun _ _ h => h
    refine Ends.attempt_eq.bind fun directory => Ends.assuming fun hplace => ?_
    rw [hmid.settings] at hplace
    have hlist : Ends store.Onward (fun listed mid => ListsRecipes store listed ∧ store.Ready mid)
        Store.listRecipes := by
      unfold Store.listRecipes
      refine Store.ends_recipeItems.bind fun items => Ends.assuming fun hitems => ?_
      exact Ends.attempt_eq.mono (fun _ h => h) fun listed _ h => ⟨⟨items, hitems, h.1⟩, h.2⟩
    refine (ends_inStore hlist).bind fun listed => Ends.assuming fun hlisted => ?_
    refine Ends.mono (Ends.foldlM_along (L := fun past done bench => (∃ ids, ids.Sublist past ∧
      done.written = ids.map fun id => ⟨scriptPath directory id.display, id, backend.id, none⟩) ∧
        store.Ready bench.store) fun past id rest _ done => ?_)
      (fun _ hs => ⟨⟨[], .slnil, rfl⟩, hs⟩) fun g _ hs => ?_
    · refine Ends.assuming ?_
      rintro ⟨ids, hids, hdone⟩
      refine ((order.ends_recipe backend directory id).and
        ((order.ends_recipe_written backend directory id).mono (fun _ _ => trivial)
          fun _ _ h => h)).bind fun g => Ends.pure ?_
      rintro bench ⟨⟨-, hs⟩, hnone | hone⟩
      · refine ⟨⟨ids, hids.trans (List.sublist_append_left _ _), ?_⟩, hs⟩
        rw [Generation.append, hnone, List.append_nil, hdone]
      · refine ⟨⟨ids ++ [id], hids.append_right [id], ?_⟩, hs⟩
        rw [Generation.append, hone, hdone, List.map_append]
        rfl
    · obtain ⟨⟨ids, hids, hwritten⟩, hs⟩ := hs
      exact ⟨.listed rfl hfind hplace hlisted hids hwritten, hs.toOnward⟩

variable {order : Order} (hregistry : order.registry = Registry.builtIn)

section

include hregistry

theorem OfTool.scripts {tool : Value} {g : Generation} (h : order.OfTool store tool g) :
    ∀ s ∈ g.written, order.Places store.settings s ∧ tool = .text s.tool ∧ s.feature = none ∧
      ∃ listed, ListsRecipes store listed ∧ s.recipe ∈ listed := by
  intro s hs
  cases h with
  | nothing hnone =>
      rw [hnone] at hs
      cases hs
  | @listed name backend directory listed ids hname hfind hplace hlisted hids hwritten =>
      rw [hwritten] at hs
      obtain ⟨id, hid, rfl⟩ := List.mem_map.1 hs
      obtain rfl := Registry.id_of_find? hregistry hfind
      exact ⟨⟨backend, directory, hfind, hplace, rfl⟩, hname, rfl, listed, hlisted, hids.subset hid⟩

end

theorem OfTool.nodup (distinct : ∀ listed, ListsRecipes store listed → listed.Nodup) {tool : Value}
    {g : Generation} (h : order.OfTool store tool g) : (g.written.map (·.recipe)).Nodup := by
  cases h with
  | nothing hnone =>
      rw [hnone]
      exact .nil
  | @listed name backend directory listed ids hname hfind hplace hlisted hids hwritten =>
      have hrecipes : g.written.map (·.recipe) = ids := by
        rw [hwritten, List.map_map]
        exact List.map_id ids
      rw [hrecipes]
      exact hids.nodup (distinct listed hlisted)

/-! ## Scripts of features -/

section

include hregistry

/-- What is written for a feature: scripts with its name, for some of the tools in their order. -/
theorem Scripts.written_eq {settings : Settings} {wanted : List Value} {feature : Feature}
    {recipe : Recipe} {tools : List Value} {done g : Generation}
    (h : order.Scripts settings wanted feature recipe tools done g) :
    ∃ more, g.written = done.written ++ more ∧
      (∀ s ∈ more, order.Places settings s ∧ s.feature = some feature.id) ∧
        (more.map fun s => Value.text s.tool).Sublist tools := by
  induction h with
  | none done => exact ⟨[], by simp, by simp, .slnil⟩
  | unwanted _ _ ih =>
      obtain ⟨more, hg, hmore, htools⟩ := ih
      exact ⟨more, hg, hmore, htools.cons _⟩
  | unknown _ _ _ _ ih =>
      obtain ⟨more, hg, hmore, htools⟩ := ih
      exact ⟨more, by rw [hg]; simp [Generation.append, Generation.ofSkipped], hmore, htools.cons _⟩
  | failed tools done _ _ _ =>
      exact ⟨[], by simp [Generation.append, Generation.ofSkipped], by simp, List.nil_sublist _⟩
  | @written tool tools done g backend directory _ hfind hplace _ ih =>
      obtain ⟨more, hg, hmore, htools⟩ := ih
      obtain ⟨name, rfl, hfound⟩ := Registry.of_findNamed?_ok hfind
      obtain rfl := Registry.id_of_find? hregistry hfound
      refine ⟨⟨scriptPath directory ("feature-" ++ feature.id.display), recipe.id, backend.id,
        some feature.id⟩ :: more, ?_, ?_, htools.cons_cons _⟩
      · rw [hg]
        exact List.append_assoc _ [_] more
      · exact List.forall_mem_cons.2 ⟨⟨⟨backend, directory, hfound, hplace, rfl⟩, rfl⟩, hmore⟩

theorem Handles.scripts {wanted : List Value} {feature : Feature} {g : Generation}
    (h : order.Handles store wanted feature g) :
    ∀ s ∈ g.written, order.Places store.settings s ∧ s.feature = some feature.id := by
  cases h with
  | unbound _ => nofun
  | missing _ _ _ _ => nofun
  | bound _ _ scripts =>
      obtain ⟨more, hg, hmore, -⟩ := scripts.written_eq hregistry
      rw [hg]
      exact hmore

end

end Order

/-- No tool stands twice among those that a feature is for. -/
def Feature.NamesToolsOnce (store : Store) (feature : Feature) : Prop :=
  ∀ binding recipe, feature.recipe = some binding →
    ((Store.getRecipe binding.id).runFrom store).1 = .ok (some recipe) →
      (feature.targets recipe store.settings.defaultTools).Nodup

theorem Order.Handles.nodup {order : Order} (hregistry : order.registry = Registry.builtIn)
    {store : Store} {wanted : List Value} {feature : Feature}
    (once : feature.NamesToolsOnce store) {g : Generation}
    (h : order.Handles store wanted feature g) : (g.written.map (·.tool)).Nodup := by
  cases h with
  | unbound _ => exact .nil
  | missing _ _ _ _ => exact .nil
  | @bound binding recipe g hbinding hfound scripts =>
      obtain ⟨more, hg, -, htools⟩ := scripts.written_eq hregistry
      have hnodup : ((more.map (·.tool)).map Value.text).Nodup := by
        rw [List.map_map]
        exact htools.nodup (once binding recipe hbinding hfound)
      rw [hg]
      exact hnodup.of_map _

end Playbook
