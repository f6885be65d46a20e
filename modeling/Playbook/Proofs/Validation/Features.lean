import Playbook.Proofs.Generation.Messages
import Playbook.Proofs.Manifest.Feature
import Playbook.Proofs.Store.Loading
import Playbook.Proofs.Store.Projects

/-!
# Features of a repository that was checked

Every recipe that a feature names is there. The ids of features are free of
blanks, so that none of the other messages reads like that of a missing recipe.
-/

namespace Playbook

open Work
open Validation (Checked Collected Featured Known completed field isKebabCase)

/-! ## Ids without blanks -/

theorem Validation.mem_of_isKebabCase {id : String} (h : isKebabCase id = true) {c : Char}
    (hc : c ∈ id.toList) : c = '\n' ∨ c = '-' ∨ isSmallOrDigit c = true := by
  by_cases hend : c = '\n'
  · exact .inl hend
  · have hkept : c ∈ withoutLineEnd id.toList := by
      rw [withoutLineEnd]
      split
      · rename_i hline
        have hlast := List.dropLast_append_getLast? '\n' (by simpa using hline)
        rw [← hlast, List.mem_append] at hc
        exact hc.resolve_right (by simpa using hend)
      · exact hc
    refine .inr ((Text.mem_pieces '-' hkept).imp_right ?_)
    rintro ⟨piece, hpiece, hmem⟩
    rw [isKebabCase, List.all_eq_true] at h
    have hall := h piece hpiece
    rw [Bool.and_eq_true, List.all_eq_true] at hall
    exact hall.2 c hmem

theorem Validation.blank_notMem {id : String} (h : isKebabCase id = true) : ' ' ∉ id.toList := by
  intro hblank
  rcases mem_of_isKebabCase h hblank with hc | hc | hc <;> cases hc

/-! ## Features that are read -/

/-- A feature with an id in kebab case, whose recipe is there. -/
structure Feature.Bound (c : Validation.Check) (feature : Feature) : Prop where
  id : ∃ id, feature.id = .text id ∧ Validation.isKebabCase id = true
  recipe : ∀ binding ∈ feature.recipe, ∃ recipe, binding.id = .text recipe ∧
    Known (c.documents .recipe) (.text recipe)

theorem Manifests.isMapping_of_document {tree : Tree} {path : Path} {v : Value}
    (h : document tree path = .ok (.ok v)) : v.isMapping = true := by
  obtain ⟨found, -, h⟩ := Attempt.of_bind_ok h
  cases found with
  | error trouble => cases h
  | ok found =>
      dsimp only at h
      split at h
      · cases h
      · split at h
        · cases h
          assumption
        · cases h

section

variable {strict : Prop} {tree : Tree} {settings : Settings} {c : Validation.Check}

theorem Feature.bound_of_featured (checked : Checked strict c) (proper : tree.ProperDocuments)
    {path : Path} (featured : Featured tree path c) {v : Value}
    (hdocument : Manifests.document tree path = .ok (.ok v)) {feature : Feature}
    (hparse : Store.parseFeature path v = .ok feature) : feature.Bound c := by
  obtain ⟨found, id, hfound, hsound, hnoted⟩ := featured
  obtain rfl := Except.ok.inj (Except.ok.inj (hdocument.symm.trans hfound))
  have hv := proper path v hdocument
  obtain ⟨hid, hrecipe⟩ :=
    hsound.feature hv (Manifests.isMapping_of_document hdocument) hparse
  have hfilled := (hsound.id_eq (Validation.proper_completed hv)).1
  refine ⟨⟨id, hid, hsound.form hfilled⟩, fun binding hbinding => ?_⟩
  obtain ⟨recipe, hfilled, hown, hmapping, hfield⟩ := hrecipe binding hbinding
  obtain ⟨reference, hreference, hnoted⟩ := hnoted hmapping
  refine ⟨recipe, hown, ?_⟩
  have hknown := checked.references reference hreference
  rw [hnoted, hfield] at hknown
  exact hknown (by simpa [Value.isGiven, String.isEmpty_iff] using hfilled)

theorem Feature.bound_of_loaded (checked : Checked strict c) (proper : tree.ProperDocuments)
    {path : Path} (featured : Featured tree path c) {document : Path × Value}
    (hloaded : Manifests.loaded? tree path = some document) {feature : Feature}
    (hparse : Store.parseFeature document.1 document.2 = .ok feature) : feature.Bound c := by
  rw [Manifests.loaded?] at hloaded
  split at hloaded
  · rename_i v hdocument
    cases hloaded
    exact bound_of_featured checked proper featured hdocument hparse
  · cases hloaded

theorem Store.writes_addFeature {I : Store → Prop} {features : List Feature}
    (hfeatures : ∀ feature ∈ features, feature.Bound c) {document : Path × Value}
    (h : ∀ feature, parseFeature document.1 document.2 = .ok feature → feature.Bound c) :
    Writes TellsNoRecipe I I (fun features => ∀ feature ∈ features, feature.Bound c)
      (addFeature features document) := by
  unfold addFeature
  split
  · rename_i feature hparse
    refine Writes.pure fun other hother => ?_
    rcases List.mem_append.1 hother with hother | hother
    · exact hfeatures other hother
    · rw [List.mem_singleton.1 hother]
      exact h feature hparse
  · refine Writes.ite (fun _ => (Writes.tell fun entry hentry => ?_).bind fun _ _ =>
      Writes.pure hfeatures) fun _ => Writes.throw _
    rw [List.mem_singleton.1 hentry]
    exact .of_head (by simp)

/-- Reading the features of a project whose files were all checked. -/
theorem Store.writes_loadFeatures (checked : Checked strict c) {store : Store}
    (proper : store.tree.ProperDocuments) {project : Value}
    (hbelow : ∀ directory, store.projectDir? project = .ok (some directory) →
      Validation.FeaturedBelow store.tree directory c) :
    Writes TellsNoRecipe (· = store) (· = store)
      (fun features => ∀ feature ∈ features, feature.Bound c) (loadFeatures project) := by
  have hfind : Writes TellsNoRecipe (· = store) (· = store)
      (fun found => store.projectDir? project = .ok found) (findProjectDir project) := by
    refine Writes.quiet ?_
    rintro _ log rfl
    exact ⟨_, _, exec_findProjectDir _ project log, rfl, fun _ h => h⟩
  unfold loadFeatures
  refine hfind.bind fun found hfound => ?_
  cases found with
  | none => exact Writes.pure (by simp)
  | some directory =>
      obtain ⟨paths, hpaths, hfeatured⟩ := hbelow directory hfound
      refine Writes.state.bind ?_
      rintro _ rfl
      refine (Writes.attempt fun found hfound => hfound).bind fun found hfound => ?_
      obtain rfl := Except.ok.inj (hpaths.symm.trans hfound)
      rcases hload : Manifests.loadAll _ paths with ⟨log, documents⟩
      refine (Writes.tell fun entry hentry => ?_).bind fun _ _ => ?_
      · exact Manifests.tellsNoRecipe_of_loadAll entry (by rwa [hload])
      · refine (Writes.attempt fun found hfound => hfound).bind ?_
        rintro documents rfl
        obtain ⟨-, -, rfl⟩ := Manifests.loadAll_eq_ok hload
        refine Writes.foldlM (fun features document hdocument hfeatures => ?_) (by simp)
        obtain ⟨path, hpath, hloaded⟩ := List.mem_filterMap.1 hdocument
        exact writes_addFeature hfeatures fun feature hparse =>
          Feature.bound_of_loaded checked proper (hfeatured path hpath) hloaded hparse

/-! ## Scripts of features -/

variable {store : Store} {recipes : Collection.Items Recipe}

theorem Store.writes_getRecipe (loads : Loads store c .recipes recipes) {id : String}
    (hknown : Known (c.documents .recipe) (.text id)) :
    Writes TellsNoRecipe (Kind.recipes.Stands · recipes) (·.recipes = some recipes)
      (fun found => found.isSome) (getRecipe (.text id)) := by
  obtain ⟨item, hitem, hid⟩ := loads.exists_item hknown
  have hfound : (recipes.find? fun item => item.1.same (.text id)).isSome := by
    rw [List.find?_isSome]
    exact ⟨item, hitem, by rw [hid, Value.same_refl]⟩
  obtain ⟨found, hfound⟩ := Option.isSome_iff_exists.1 hfound
  refine Writes.quiet fun store log hstands => ?_
  have hfind : find? recipes (.text id) = .ok (some found.2) := by
    rw [find?, if_pos (show (Value.text id).canBeKey = true from rfl), hfound]
    rfl
  unfold getRecipe
  have hitems : exec recipeItems (store, log) =
      (.ok recipes, Kind.recipes.keep recipes store, log) := hstands.exec_items log
  rw [exec_bind_ok hitems, hfind]
  refine ⟨_, _, rfl, rfl, ?_⟩
  rintro _ ⟨⟩
  rfl

theorem Order.writes_feature (loads : Store.Loads store c .recipes recipes) (order : Order)
    (wanted : List Value) {feature : Feature} (bound : feature.Bound c) :
    Writes TellsNoRecipe (fun bench : Bench => Store.Kind.recipes.Stands bench.store recipes)
      (fun bench => Store.Kind.recipes.Stands bench.store recipes) (fun _ => True)
      (order.feature wanted feature) := by
  obtain ⟨⟨id, hid, hform⟩, hrecipe⟩ := bound
  have hstands : ∀ bench : Bench, bench.Holds recipes →
      Store.Kind.recipes.Stands bench.store recipes := fun _ hholds => .inl hholds
  unfold Order.feature
  cases hbinding : feature.recipe with
  | none => exact Writes.pure trivial
  | some binding =>
      obtain ⟨recipe, hown, hknown⟩ := hrecipe binding hbinding
      simp only [hown]
      refine Writes.sequence (J := Bench.Holds recipes) ((Store.writes_getRecipe loads hknown).within
        (fun _ h => h) fun _ _ _ h => h) (fun found hfound => ?_) hstands
      cases found with
      | none => cases hfound
      | some recipe =>
          refine Writes.mono (J := Bench.Holds recipes) ?_ (fun _ h => h) hstands fun _ h => h
          refine Writes.bind (Writes.change fun _ h => h) fun _ _ => ?_
          refine Writes.state.bind fun bench _ => ?_
          exact order.writes_featureScripts wanted hid (Validation.blank_notMem hform) recipe _ _

/-- The files of a project with a plain name were checked. -/
theorem surveyed_of_projectDir? (collected : Collected store.tree store.settings c)
    {project : Value} (plain : ∀ name, project = .text name → Path.PlainName name)
    {directory : Path} (h : store.projectDir? project = .ok (some directory)) :
    Validation.Surveyed store.tree directory c := by
  obtain ⟨sources, hsources, hunder⟩ := collected.projects
  cases project with
  | text name =>
      obtain ⟨found, hfound, source, hsource, hmem⟩ :=
        Store.mem_subdirectories_of_projectDir? (plain name rfl) h
      obtain rfl := Except.ok.inj (hsources.symm.trans hfound)
      obtain ⟨directories, hdirectories, hall⟩ := hunder source hsource
      exact hall directory (hmem directories hdirectories)
  | _ =>
      rw [Store.projectDir?, hsources] at h
      cases sources <;> cases h

theorem Order.writes_features (collected : Collected store.tree store.settings c)
    (checked : Checked strict c) (proper : store.tree.ProperDocuments)
    (faithful : store.Faithful) {prompts : Collection.Items Prompt}
    (hprompts : Store.Loads store c .prompts prompts)
    (loads : Store.Loads store c .recipes recipes) (order : Order)
    (plain : ∀ name, order.project.id = .text name → Path.PlainName name)
    (wanted : List Value) :
    Writes TellsNoRecipe (· = store) (fun _ => True) (fun _ => True) (order.features wanted) := by
  have hadmissions : Writes TellsNoRecipe (· = store) (· = Store.Kind.prompts.keep prompts store)
      (fun _ => True) Store.admissions := by
    refine Writes.quiet ?_
    rintro _ log rfl
    have hitems : exec Store.promptItems (_, log) =
        (.ok prompts, Store.Kind.prompts.keep prompts _, log) :=
      (hprompts.stands faithful).exec_items log
    unfold Store.admissions Store.promptPaths
    rw [exec_bind, exec_bind_ok hitems]
    exact ⟨_, _, rfl, rfl, fun _ _ => trivial⟩
  have hstands : Store.Kind.recipes.Stands (Store.Kind.prompts.keep prompts store) recipes :=
    loads.stands faithful
  have hload : Writes TellsNoRecipe
      (fun bench : Bench => bench.store = Store.Kind.prompts.keep prompts store)
      (fun bench => Store.Kind.recipes.Stands bench.store recipes)
      (fun features => ∀ feature ∈ features, feature.Bound c)
      (Bench.inStore (Store.loadFeatures order.project.id)) := by
    have hread : Writes TellsNoRecipe (· = Store.Kind.prompts.keep prompts store)
        (· = Store.Kind.prompts.keep prompts store)
        (fun features => ∀ feature ∈ features, feature.Bound c)
        (Store.loadFeatures order.project.id) :=
      Store.writes_loadFeatures checked
        (show (Store.Kind.prompts.keep prompts store).tree.ProperDocuments from proper)
        fun directory h => (surveyed_of_projectDir? collected plain h).features
    refine hread.within (fun _ h => h) ?_
    rintro bench _ - rfl
    exact hstands
  have hscripts : Writes TellsNoRecipe
      (fun bench : Bench => bench.store = Store.Kind.prompts.keep prompts store)
      (fun _ => True) (fun _ => True) (do
        let features ← Bench.inStore (Store.loadFeatures order.project.id)
        features.foldlM (fun done feature => do
          return done.append (← order.feature wanted feature)) Generation.empty) := by
    refine (hload.bind fun features hfeatures => ?_).mono (fun _ h => h) (fun _ _ => trivial)
      fun _ h => h
    refine Writes.foldlM (fun done feature hfeature _ => ?_) trivial
    exact (order.writes_feature loads wanted (hfeatures feature hfeature)).bind
      fun more _ => Writes.pure trivial
  unfold features Bench.fresh
  refine hadmissions.sequence (fun admissions _ => ?_) fun _ _ => trivial
  refine Writes.within (Writes.ite (fun _ => ?_) fun _ => hscripts) (fun _ h => h)
    fun _ _ _ _ => trivial
  exact Writes.sequence (Q := fun _ => True) (Writes.throw _) (fun _ _ => hscripts)
    fun _ _ => trivial

/-- Generating the scripts of features tells of no missing recipe. -/
theorem log_features (collected : Collected store.tree store.settings c)
    (checked : Checked strict c) (proper : store.tree.ProperDocuments)
    (faithful : store.Faithful) {prompts : Collection.Items Prompt}
    (hprompts : Store.Loads store c .prompts prompts)
    (loads : Store.Loads store c .recipes recipes) (order : Order)
    (plain : ∀ name, order.project.id = .text name → Path.PlainName name)
    (wanted : List Value) :
    ∀ entry ∈ ((order.features wanted).runFrom store).2.2, TellsNoRecipe entry :=
  Writes.runFrom (order.writes_features collected checked proper faithful hprompts loads plain
    wanted) rfl

end

end Playbook
