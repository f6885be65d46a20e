import Playbook.Proofs.Generation.Names
import Playbook.Proofs.Store.Index
import Playbook.Proofs.Store.Items
import Playbook.Proofs.Value.Sorting

/-!
# Scripts that overwrite each other

The scripts that are generated for the recipes of a repository that was checked
have paths of their own. Those of its features have them too, unless features
share an id, a feature names a tool twice, or a recipe has the name that the
script of a feature gets: none of this is reported by the check.
-/

namespace Playbook

open Work
open Validation (Collected Checked)

/-! ## Groups of scripts -/

namespace Generation

theorem written_foldl (groups : List Generation) (g : Generation) :
    (groups.foldl append g).written = g.written ++ groups.flatMap (·.written) := by
  induction groups generalizing g with
  | nil => simp
  | cons first groups ih => rw [List.foldl_cons, ih, List.flatMap_cons, ← List.append_assoc, append]

/-- Scripts are apart if those of each group are, and those of different groups too. -/
theorem pairwise_flatMap {α : Type} {Q : α → Generation → Prop}
    {R : WrittenScript → WrittenScript → Prop} {l : List α} {groups : List Generation}
    (h : List.Forall₂ Q l groups) (inner : ∀ a ∈ l, ∀ g, Q a g → g.written.Pairwise R)
    (outer : l.Pairwise fun a b => ∀ g g', Q a g → Q b g' → ∀ s ∈ g.written, ∀ t ∈ g'.written,
      R s t) :
    (groups.flatMap (·.written)).Pairwise R := by
  induction h with
  | nil => exact .nil
  | @cons a g l groups hg hgroups ih =>
      obtain ⟨hcross, outer⟩ := List.pairwise_cons.1 outer
      rw [List.flatMap_cons, List.pairwise_append]
      refine ⟨inner a List.mem_cons_self g hg,
        ih (fun b hb => inner b (List.mem_cons_of_mem _ hb)) outer, fun s hs t ht => ?_⟩
      obtain ⟨g', hg', ht⟩ := List.mem_flatMap.1 ht
      obtain ⟨b, hb, hQ⟩ := exists_left_of_mem hgroups hg'
      exact hcross b hb g g' hg hQ s hs t ht

end Generation

namespace Order

variable {order : Order} {store : Store}

/-- Different tools have different scripts, and a tool has one for each recipe. -/
theorem pairwise_ofTools (hregistry : order.registry = Registry.builtIn)
    (listed : ∀ listed, ListsRecipes store listed → listed.Nodup) {tools : List Value}
    (distinct : tools.Nodup) {groups : List Generation}
    (h : List.Forall₂ (order.OfTool store) tools groups) :
    (groups.flatMap (·.written)).Pairwise fun s t => ¬ (s.tool = t.tool ∧ s.recipe = t.recipe) := by
  refine Generation.pairwise_flatMap h (fun tool _ g hg => ?_) (distinct.imp ?_)
  · exact (List.pairwise_map.1 (hg.nodup listed)).imp fun hne heq => hne heq.2
  · rintro tool other hne g g' hg hg' s hs t ht ⟨heq, -⟩
    obtain ⟨-, rfl, -⟩ := hg.scripts hregistry s hs
    obtain ⟨-, rfl, -⟩ := hg'.scripts hregistry t ht
    exact hne (congrArg Value.text heq)

/-- Features with different ids have different scripts, and a feature has one for each tool. -/
theorem pairwise_ofFeatures (hregistry : order.registry = Registry.builtIn) {wanted : List Value}
    {features : List Feature} (distinct : (features.map (·.id)).Nodup)
    (once : ∀ feature ∈ features, feature.NamesToolsOnce store) {groups : List Generation}
    (h : List.Forall₂ (order.Handles store wanted) features groups) :
    (groups.flatMap (·.written)).Pairwise fun s t =>
      ¬ (s.feature = t.feature ∧ s.tool = t.tool) := by
  refine Generation.pairwise_flatMap h (fun feature hfeature g hg => ?_)
    ((List.pairwise_map.1 distinct).imp ?_)
  · have htools := hg.nodup hregistry (once feature hfeature)
    exact (List.pairwise_map.1 htools).imp fun hne heq => hne heq.2
  · rintro feature other hne g g' hg hg' s hs t ht ⟨heq, -⟩
    rw [(hg.scripts hregistry s hs).2, (hg'.scripts hregistry t ht).2] at heq
    exact hne (Option.some.inj heq)

end Order

namespace Store

variable {store : Store}

/-! ## A whole generation -/

/-- Where no way leads back up, the features are those that were there before scripts were
written. -/
theorem FeaturesOf.of_onward (proper : store.tree.Proper) {mid : Store} (hmid : store.Onward mid)
    {id : Value} (down : store.LooksDown id) {features : List Feature}
    (h : mid.FeaturesOf id features) : store.FeaturesOf id features := by
  obtain ⟨found, hfound, hnone, hbelow⟩ := h
  have hsame := projectDir?_of_scripted down hmid.tree hmid.settings hfound
  refine ⟨found, hsame, hnone, ?_⟩
  rintro directory rfl
  obtain ⟨entries, hlook⟩ := exists_look_of_projectDir? hsame
  exact (hbelow directory rfl).of_scripted hmid.tree proper hlook

theorem groups_of_generate {id : Value} {wanted : List Value} {registry : Registry} {time : String}
    {g : Generation} {rest : Store × Log}
    (h : (generate id wanted registry time).runFrom store = (.ok g, rest)) :
    ∃ project mid features ofTools ofFeatures,
      (loadProject id).runFrom store = (.ok project, store, []) ∧
      store.Onward mid ∧ mid.FeaturesOf project.id features ∧
      List.Forall₂ ((Order.mk project time registry).OfTool store)
        (if wanted.isEmpty then store.settings.defaultTools else wanted) ofTools ∧
      List.Forall₂ ((Order.mk project time registry).Handles store wanted) features ofFeatures ∧
      g.written = ofTools.flatMap (·.written) ++ ofFeatures.flatMap (·.written) := by
  unfold generate at h
  obtain ⟨project, ⟨loaded, log⟩, hproject, h⟩ := of_exec_bind_ok h
  obtain ⟨-, -, -, -, -, -, -, hloaded⟩ := of_exec_loadProject_ok hproject
  cases hloaded
  rw [exec_bind_ok (exec_state _ _)] at h
  obtain ⟨recipes, ⟨last, lastLog⟩, hrecipes, h⟩ := of_exec_bind_ok h
  obtain ⟨⟨ofTools, rfl, htools⟩, hlast⟩ := Order.ends_groups _
    (fun tool _ => (Order.mk project time registry).ends_ofTool tool) .empty store [] recipes last
      lastLog (onward_refl store) hrecipes
  obtain ⟨ofFeatures, ⟨_, _⟩, hfeatures, h⟩ := of_exec_bind_ok h
  cases h
  obtain ⟨⟨mid, features, groups, hmid, hleads, rfl, hgroups⟩, -⟩ :=
    (Order.mk project time registry).ends_handled last lastLog ofFeatures _ _ hlast hfeatures
  refine ⟨project, mid, features, ofTools, groups, hproject, hmid, hleads, htools, hgroups, ?_⟩
  rw [Generation.append, Generation.written_foldl, Generation.written_foldl]
  rfl

/-! ## What was checked -/

variable {strict : Prop} {c : Validation.Check}

/-- The recipes of a store that was checked have ids in kebab case, each of them once. -/
theorem exists_listed_of_collected (collected : Collected store.tree store.settings c)
    (faithful : store.Faithful) {listed : List Value} (h : Order.ListsRecipes store listed) :
    ∃ sorted : List String, listed = sorted.map .text ∧ sorted.Nodup ∧
      ∀ id ∈ sorted, Validation.isKebabCase id = true ∧
        ∃ recipe, ((getRecipe (.text id)).runFrom store).1 = .ok (some recipe) := by
  obtain ⟨items, hread, hids⟩ := h
  have hreading := faithful.recipes hread
  have texts : ∀ item ∈ items, ∃ id, item.1 = .text id ∧ Validation.isKebabCase id = true := by
    intro item hitem
    obtain ⟨path, entry, hlisted, hreads, hkey⟩ := exists_listed .recipes collected hreading hitem
    obtain ⟨id, -, hfield, hid⟩ := Recipe.Reads.id hreads
    cases hlisted.id.symm.trans hfield
    exact ⟨_, hkey.trans hid, hlisted.form⟩
  obtain ⟨sorted, rfl, increasing, hmem⟩ := exists_sorted
    (fun item hitem => (texts item hitem).imp fun _ h => h.1) (Kind.nodup_of_reading hreading) hids
  refine ⟨sorted, rfl, increasing.imp ne_of_lt, fun id hid => ?_⟩
  obtain ⟨item, hitem, htext⟩ := List.mem_map.1 ((hmem id).1 hid)
  obtain ⟨own, hown, hform⟩ := texts item hitem
  obtain rfl := Value.text.inj (htext.symm.trans hown)
  have hfound : (items.find? fun other => other.1.same (.text id)).isSome := by
    rw [List.find?_isSome]
    exact ⟨item, hitem, by rw [htext, Value.same_refl]⟩
  obtain ⟨found, hfind⟩ := Option.isSome_iff_exists.1 hfound
  refine ⟨hform, found.2.2, ?_⟩
  have hgiven : find? items (.text id) = .ok (some found.2) := by
    rw [find?, if_pos (by rfl), hfind]
    rfl
  rw [runFrom_eq, getRecipe, exec_bind_ok (Prod.ext ((exec_recipeItems store []).trans hread) rfl),
    hgiven]
  rfl

/-- The features to which a plain name leads were checked. -/
theorem bound_of_featuresOf (collected : Collected store.tree store.settings c)
    (checked : Checked strict c) (documents : store.tree.ProperDocuments) {id : Value}
    (plain : ∀ name, id = .text name → Path.PlainName name) {features : List Feature}
    (h : store.FeaturesOf id features) : ∀ feature ∈ features, feature.Bound c := by
  obtain ⟨found, hfound, hnone, hbelow⟩ := h
  cases found with
  | none =>
      rw [hnone rfl]
      nofun
  | some directory =>
      obtain ⟨paths, hpaths, hfeatured⟩ :=
        (surveyed_of_projectDir? collected plain hfound).features
      obtain ⟨_, log, loaded, hsame, hload, rfl⟩ := hbelow directory rfl
      obtain rfl := Except.ok.inj (hpaths.symm.trans hsame)
      obtain ⟨-, -, rfl⟩ := Manifests.loadAll_eq_ok hload
      intro feature hfeature
      obtain ⟨document, hdocument, hparsed⟩ := List.mem_filterMap.1 hfeature
      obtain ⟨path, hpath, hloaded⟩ := List.mem_filterMap.1 hdocument
      refine Feature.bound_of_loaded checked documents (hfeatured path hpath) hloaded ?_
      rw [parsed?] at hparsed
      split at hparsed
      · cases hparsed
        assumption
      · cases hparsed

theorem exists_text_of_projectDir? {id : Value} {directory : Path}
    (h : store.projectDir? id = .ok (some directory)) : ∃ name, id = .text name := by
  obtain ⟨sources, -, h⟩ := Attempt.of_bind_ok h
  cases id with
  | text name => exact ⟨name, rfl⟩
  | _ => cases sources <;> cases h

/-- A project that was checked is looked for on ways that lead down. -/
theorem looksDown_of_checked (collected : Collected store.tree store.settings c)
    (documents : store.tree.ProperDocuments) {id : Value}
    (plain : ∀ name, id = .text name → Path.PlainName name)
    (level : ∀ sources, store.settings.projectDirs = .ok sources →
      ∀ source ∈ sources, ".." ∉ source.names) {project : Project} {rest : Store × Log}
    (h : (loadProject id).runFrom store = (.ok project, rest)) :
    (∀ name, project.id = .text name → Path.PlainName name) ∧ store.LooksDown project.id := by
  obtain ⟨directory, -, -, hdirectory, -⟩ := of_exec_loadProject_ok h
  obtain ⟨name, rfl⟩ := exists_text_of_projectDir? hdirectory
  obtain ⟨own, hown, hform⟩ := exists_projectId collected documents (plain name rfl) h
  have hplain := Path.plainName_of_isKebabCase hform
  rw [hown]
  refine ⟨fun other heq => Value.text.inj heq ▸ hplain, ?_⟩
  intro sources other hsources heq source hsource
  obtain rfl := Value.text.inj heq
  rw [Path.child_plain hplain, Manifests.pathBelow, List.mem_append, List.mem_singleton]
  exact not_or.2 ⟨level sources hsources source hsource, Ne.symm hplain.2.2.1⟩

/-! ## Overwriting -/

variable {order : Order} {groups : List Generation}

/-- The scripts for the recipes of a store that was checked. -/
theorem isForRecipe_of_ofTools (hregistry : order.registry = Registry.builtIn)
    (collected : Collected store.tree store.settings c) (faithful : store.Faithful)
    {tools : List Value} (h : List.Forall₂ (order.OfTool store) tools groups) :
    ∀ s ∈ groups.flatMap (·.written), ∃ id, order.IsForRecipe store.settings s id ∧
      ∃ recipe, ((getRecipe (.text id)).runFrom store).1 = .ok (some recipe) := by
  intro s hs
  obtain ⟨g, hg, hs⟩ := List.mem_flatMap.1 hs
  obtain ⟨tool, -, hofTool⟩ := exists_left_of_mem h hg
  obtain ⟨hplaces, -, hfeature, listed, hlisted, hmem⟩ := hofTool.scripts hregistry s hs
  obtain ⟨sorted, rfl, -, hsorted⟩ := exists_listed_of_collected collected faithful hlisted
  obtain ⟨id, hid, hrecipe⟩ := List.mem_map.1 hmem
  obtain ⟨hform, hfound⟩ := hsorted id hid
  exact ⟨id, ⟨hplaces, hfeature, hrecipe.symm, hform⟩, hfound⟩

/-- The scripts for features that were checked. -/
theorem isForFeature_of_handles (hregistry : order.registry = Registry.builtIn)
    {features : List Feature} (bound : ∀ feature ∈ features, feature.Bound c)
    {wanted : List Value} (h : List.Forall₂ (order.Handles store wanted) features groups) :
    ∀ s ∈ groups.flatMap (·.written), ∃ feature ∈ features, ∃ id, feature.id = .text id ∧
      order.IsForFeature store.settings s id := by
  intro s hs
  obtain ⟨g, hg, hs⟩ := List.mem_flatMap.1 hs
  obtain ⟨feature, hfeature, handles⟩ := exists_left_of_mem h hg
  obtain ⟨hplaces, hown⟩ := handles.scripts hregistry s hs
  obtain ⟨id, hid, hform⟩ := (bound feature hfeature).id
  exact ⟨feature, hfeature, id, hid, hplaces, hown.trans (congrArg some hid), hform⟩

/-- Features by which no two scripts come to have one path. -/
structure Unambiguous (store : Store) (features : List Feature) : Prop where
  ids : (features.map (·.id)).Nodup
  tools : ∀ feature ∈ features, feature.NamesToolsOnce store
  recipes : ∀ feature ∈ features, ∀ recipe,
    ((getRecipe (.text ("feature-" ++ feature.id.display))).runFrom store).1 ≠ .ok (some recipe)

/--
The scripts that are generated from a repository without errors, for tools
that differ: those of recipes have paths of their own, and all have exactly if
no two scripts of features share their feature id and tool, and none of these
has the name of the script of a recipe for the same tool. This is so for
features with different ids that name each tool once, if no recipe has the id
that a feature would give to its script. The project is asked for by a plain
name, as the check sees it, and its sources do not lead back up, where the
scripts themselves could become part of the way to it.
-/
theorem nodup_paths_of_generate (proper : store.tree.Proper)
    (documents : store.tree.ProperDocuments) (faithful : store.Faithful)
    {known : Option (List String)} {report : Report}
    (hvalidate : validate store.tree store.settings known = .ok report)
    (herrors : report.errors = []) {id : Value}
    (plain : ∀ name, id = .text name → Path.PlainName name)
    (level : ∀ sources, store.settings.projectDirs = .ok sources →
      ∀ source ∈ sources, ".." ∉ source.names) {wanted : List Value}
    (distinct : (if wanted.isEmpty then store.settings.defaultTools else wanted).Nodup)
    {time : String} {g : Generation} {rest : Store × Log}
    (h : (generate id wanted Registry.builtIn time).runFrom store = (.ok g, rest)) :
    ∃ project features ofRecipes ofFeatures,
      (loadProject id).runFrom store = (.ok project, store, []) ∧
      store.FeaturesOf project.id features ∧ g.written = ofRecipes ++ ofFeatures ∧
      (∀ s ∈ ofRecipes, s.feature = none) ∧
      (∀ s ∈ ofFeatures, ∃ feature ∈ features, s.feature = some feature.id) ∧
      (ofRecipes.map (·.path)).Nodup ∧
      ((g.written.map (·.path)).Nodup ↔
        (ofFeatures.map fun s => (s.feature, s.tool)).Nodup ∧
          ∀ s ∈ ofRecipes, ∀ t ∈ ofFeatures, s.tool = t.tool → s.name ≠ t.name) ∧
      (store.Unambiguous features → (g.written.map (·.path)).Nodup) := by
  obtain ⟨c, collected, checked⟩ := validate_passed documents hvalidate herrors
  obtain ⟨project, mid, features, ofTools, groups, hproject, hmid, hleads, htools, hgroups,
    hwritten⟩ := groups_of_generate h
  obtain ⟨hplain, down⟩ := looksDown_of_checked collected documents plain level hproject
  have hfeatures := hleads.of_onward proper hmid down
  have hregistry : (Order.mk project time Registry.builtIn).registry = Registry.builtIn := rfl
  have recipes := isForRecipe_of_ofTools hregistry collected faithful htools
  have bound := bound_of_featuresOf collected checked documents hplain hfeatures
  have scripts := isForFeature_of_handles hregistry bound hgroups
  have listed : ∀ listed, Order.ListsRecipes store listed → listed.Nodup := by
    intro listed hlisted
    obtain ⟨sorted, rfl, hsorted, -⟩ := exists_listed_of_collected collected faithful hlisted
    exact hsorted.map fun _ _ => Value.text.inj
  have hfeature : ∀ s ∈ groups.flatMap (·.written),
      ∃ id, (Order.mk project time Registry.builtIn).IsForFeature store.settings s id := by
    intro s hs
    obtain ⟨-, -, id, -, hs⟩ := scripts s hs
    exact ⟨id, hs⟩
  obtain ⟨hown, hall⟩ := Order.nodup_paths_iff hregistry
    (fun s hs => (recipes s hs).imp fun _ h => h.1) hfeature
    (Order.pairwise_ofTools hregistry listed distinct htools)
  rw [← hwritten] at hall
  refine ⟨project, features, _, _, hproject, hfeatures, hwritten, fun s hs => ?_, fun s hs => ?_,
    hown, hall, fun unambiguous => hall.2 ⟨?_, fun s hs t ht _ hname => ?_⟩⟩
  · obtain ⟨_, hs, -⟩ := recipes s hs
    exact hs.feature
  · obtain ⟨feature, hmem, id, hid, hs⟩ := scripts s hs
    exact ⟨feature, hmem, hs.feature.trans (congrArg some hid.symm)⟩
  · have hpairs := Order.pairwise_ofFeatures hregistry unambiguous.ids unambiguous.tools hgroups
    exact List.pairwise_map.2 (hpairs.imp fun hne heq => hne (Prod.mk.inj heq))
  · obtain ⟨own, hs, recipe, hfound⟩ := recipes s hs
    obtain ⟨feature, hmem, id, hid, ht⟩ := scripts t ht
    rw [hs.name_eq, ht.name_eq] at hname
    refine unambiguous.recipes feature hmem recipe ?_
    rw [hid]
    exact hname ▸ hfound

/-- A recipe with the name that the script of a feature gets. -/
def overwritingTree : Tree := .directory
  [("04_agents", .directory [("writer.yml", ofFields
      [("id", .text "writer"), ("purpose", .text "To write.")])]),
   ("05_recipes", .directory [("draft.yml", ofFields
      [("id", .text "feature-login"), ("steps", .list [.mapping
        [(.text "id", .text "write"), (.text "agent", .text "writer"),
         (.text "task", .text "Write.")]])])]),
   ("06_projects", .directory [("local", .directory [("shop", .directory
      [("project.yml", ofFields [("id", .text "shop")]),
       ("features", .directory [("login", .directory [("feature.yml", ofFields
          [("recipe", .mapping [(.text "id", .text "feature-login"),
            (.text "tools", .list [.text "cursor"])])])])])])])])]

theorem overwritingTree_holds : overwritingTree.Holds Value.Proper := by
  refine ⟨⟨⟨_, rfl, ?_⟩, trivial⟩, ⟨⟨_, rfl, ?_⟩, trivial⟩,
    ⟨⟨⟨⟨_, rfl, ?_⟩, ⟨⟨⟨_, rfl, ?_⟩, trivial⟩, trivial⟩, trivial⟩, trivial⟩, trivial⟩, trivial⟩
  all_goals simp [Value.Proper, Value.ProperEntries, Value.ProperItems]

/-- The script of the recipe is overwritten by that of the feature. -/
theorem nodup_paths_of_generate_overwriting :
    let store := ofSettings overwritingTree shopSettings
    let wanted := [Value.text "cursor"]
    (∃ report, validate store.tree store.settings (some (Registry.builtIn.map (·.1))) = .ok report ∧
      report.errors = []) ∧ wanted.Nodup ∧
    ∃ g rest, (generate (.text "shop") wanted Registry.builtIn "").runFrom store = (.ok g, rest) ∧
      ∃ s t, g.written = [s, t] ∧ s.feature = none ∧ t.feature.isSome ∧ s.path = t.path := by
  intro store wanted
  have proper : store.tree.Proper := by
    simp [store, ofSettings, overwritingTree, ofFields, Tree.Proper, Tree.ProperEntries]
  obtain ⟨report, hvalidate, herrors, -⟩ :=
    exists_report (show passes overwritingTree = true by decide +kernel)
  have level : ∀ sources, store.settings.projectDirs = .ok sources →
      ∀ source ∈ sources, ".." ∉ source.names := by
    have hsources : store.settings.projectDirs = .ok [⟨.root, ["06_projects", "local"]⟩] := by
      with_unfolding_all rfl
    intro sources h source hsource
    cases hsources.symm.trans h
    rw [List.mem_singleton.1 hsource]
    decide
  have plain : ∀ name, Value.text "shop" = .text name → Path.PlainName name := by
    rintro _ ⟨⟩
    exact Path.plainName_of_isKebabCase (by decide +kernel)
  obtain ⟨g, last, log, hgenerate⟩ :
      Gives (generate (.text "shop") wanted Registry.builtIn "") store :=
    gives_of_toBool (by decide +kernel)
  have hscripts :
      ((generate (.text "shop") wanted Registry.builtIn "").runFrom store).1.toOption.map
          (fun g => g.written.map fun s => (s.feature.map Value.display, s.tool, s.name)) =
        some [(none, "cursor", "feature-login"), (some "login", "cursor", "feature-login")] := by
    decide +kernel
  have hgiven : (generate (.text "shop") wanted Registry.builtIn "").runFrom store =
      (.ok g, last, log) := hgenerate
  rw [hgiven] at hscripts
  obtain ⟨s, scripts, hs, hscript, hmore⟩ := List.map_eq_cons_iff.1 (Option.some.inj hscripts)
  obtain ⟨t, rest, rfl, hscript', hrest⟩ := List.map_eq_cons_iff.1 hmore
  obtain rfl := List.map_eq_nil_iff.1 hrest
  simp only [Prod.mk.injEq, Option.map_eq_none_iff, Option.map_eq_some_iff] at hscript hscript'
  obtain ⟨hnone, htool, hname⟩ := hscript
  obtain ⟨⟨own, hown, -⟩, htool', hname'⟩ := hscript'
  obtain ⟨_, _, ofRecipes, ofFeatures, -, -, hwritten, recipes, features, -, hall, -⟩ :=
    nodup_paths_of_generate proper (fun path v h => overwritingTree_holds.of_document h)
      (faithful_ofSettings _ _) hvalidate herrors plain level (by simp [wanted]) hgiven
  have hmem : s ∈ ofRecipes := by
    have hs : s ∈ ofRecipes ++ ofFeatures := by simp [← hwritten, hs]
    refine (List.mem_append.1 hs).resolve_right fun hs => ?_
    obtain ⟨_, -, hs⟩ := features s hs
    cases hnone.symm.trans hs
  have hmem' : t ∈ ofFeatures := by
    have ht : t ∈ ofRecipes ++ ofFeatures := by simp [← hwritten, hs]
    refine (List.mem_append.1 ht).resolve_left fun ht => ?_
    cases hown.symm.trans (recipes t ht)
  refine ⟨⟨report, hvalidate, herrors⟩, List.nodup_singleton _, g, _, hgiven, s, t, hs, hnone,
    by simp [hown], ?_⟩
  by_contra hne
  refine (hall.1 ?_).2 s hmem t hmem' (htool.trans htool'.symm) (hname.trans hname'.symm)
  simpa [hs] using hne

end Store

end Playbook
