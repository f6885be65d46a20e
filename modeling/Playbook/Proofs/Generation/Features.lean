import Playbook.Proofs.Generation.Writing
import Playbook.Proofs.Store.Containment
import Playbook.Proofs.Validation.Soundness

/-!
# Features for which scripts are generated

Generation goes through the features of the directory to which the declared id
of a project leads. Where that is the directory of the manifest, these are the
features of the project, each with what is reported of it.
-/

namespace Playbook

open Work

/-! ## Reports of features -/

/-- Whether there are scripts to be generated for a tool. -/
def Order.Wants (wanted : List Value) (tool : Value) : Prop :=
  wanted = [] ∨ ∃ other ∈ wanted, other.same tool = true

namespace Generation

def IsEmpty (g : Generation) : Prop := g.written = [] ∧ g.skipped = []

/-- Every script and everything that is skipped is that of one feature. -/
structure Concerns (g : Generation) (feature : Feature) : Prop where
  written : ∀ script ∈ g.written, script.feature = some feature.id
  skipped : ∀ skipped ∈ g.skipped, Order.featureUnit feature = .ok skipped.unit

theorem concerns_empty (feature : Feature) : empty.Concerns feature :=
  ⟨by simp [empty], by simp [empty]⟩

variable {g g' : Generation} {feature : Feature}

theorem Concerns.append (h : g.Concerns feature) (h' : g'.Concerns feature) :
    (g.append g').Concerns feature := by
  constructor
  case written =>
    intro script hscript
    exact (List.mem_append.1 hscript).elim (h.written script) (h'.written script)
  case skipped =>
    intro skipped hskipped
    exact (List.mem_append.1 hskipped).elim (h.skipped skipped) (h'.skipped skipped)

theorem IsEmpty.of_append (h : (g.append g').IsEmpty) : g.IsEmpty :=
  ⟨(List.append_eq_nil_iff.1 h.1).1, (List.append_eq_nil_iff.1 h.2).1⟩

theorem append_assoc (g g' g'' : Generation) :
    (g.append g').append g'' = g.append (g'.append g'') := by
  simp [append]

end Generation

/-- A feature names a recipe, and this is not there or has a tool to generate for. -/
def Feature.IsDue (store : Store) (wanted : List Value) (feature : Feature) : Prop :=
  ∃ binding found, feature.recipe = some binding ∧
    ((Store.getRecipe binding.id).runFrom store).1 = .ok found ∧ ∀ recipe, found = some recipe →
      ∃ tool ∈ feature.targets recipe store.settings.defaultTools, Order.Wants wanted tool

/-- What is reported of a feature: nothing but what concerns it, and something if it is due. -/
structure Feature.Reports (store : Store) (wanted : List Value) (feature : Feature)
    (g : Generation) : Prop where
  concerns : g.Concerns feature
  isEmpty_iff : g.IsEmpty ↔ ¬ feature.IsDue store wanted

namespace Order

variable {store : Store} (order : Order) {wanted : List Value}

/-- What is added to a report for some tools of a feature. -/
def Adds (wanted : List Value) (feature : Feature) (tools : List Value)
    (done g : Generation) : Prop :=
  ∃ more, g = done.append more ∧ more.Concerns feature ∧
    (more.IsEmpty ↔ ∀ tool ∈ tools, ¬ Wants wanted tool)

theorem Adds.skip {feature : Feature} {tools : List Value} {done g : Generation} {tool : Value}
    (h : Adds wanted feature tools done g) (hnot : ¬ Wants wanted tool) :
    Adds wanted feature (tool :: tools) done g := by
  obtain ⟨more, hg, hmore, hempty⟩ := h
  refine ⟨more, hg, hmore, hempty.trans ?_⟩
  simp [hnot]

theorem adds_last {feature : Feature} (tools : List Value) {tool : Value}
    (hwants : Wants wanted tool) (done : Generation) {first : Generation}
    (hfirst : first.Concerns feature) (hfilled : ¬ first.IsEmpty) :
    Adds wanted feature (tool :: tools) done (done.append first) :=
  ⟨first, rfl, hfirst, iff_of_false hfilled fun hnone => hnone tool List.mem_cons_self hwants⟩

theorem Adds.cons {feature : Feature} {tools : List Value} {done first g : Generation}
    {tool : Value} (h : Adds wanted feature tools (done.append first) g)
    (hwants : Wants wanted tool) (hfirst : first.Concerns feature) (hfilled : ¬ first.IsEmpty) :
    Adds wanted feature (tool :: tools) done g := by
  obtain ⟨more, rfl, hmore, -⟩ := h
  refine ⟨first.append more, Generation.append_assoc _ _ _, hfirst.append hmore, ?_⟩
  exact iff_of_false (fun hempty => hfilled hempty.of_append)
    fun hnone => hnone tool List.mem_cons_self hwants

/--
How the scripts of a feature come to be, tool by tool: a tool that is not
wanted is left out, an unknown one is skipped, and a recipe that cannot be
compiled ends the work.
-/
inductive Scripts (order : Order) (settings : Settings) (wanted : List Value) (feature : Feature)
    (recipe : Recipe) : List Value → Generation → Generation → Prop where
  | none (done : Generation) : Scripts order settings wanted feature recipe [] done done
  | unwanted {tool : Value} {tools : List Value} {done g : Generation} (hnot : ¬ Wants wanted tool)
      (rest : Scripts order settings wanted feature recipe tools done g) :
      Scripts order settings wanted feature recipe (tool :: tools) done g
  | unknown {tool unit : Value} {tools : List Value} {done g : Generation}
      (hwants : Wants wanted tool) (hunit : featureUnit feature = .ok unit) (reason : String)
      (rest : Scripts order settings wanted feature recipe tools
        (done.append (.ofSkipped unit reason)) g) :
      Scripts order settings wanted feature recipe (tool :: tools) done g
  | failed {tool unit : Value} (tools : List Value) (done : Generation)
      (hwants : Wants wanted tool) (hunit : featureUnit feature = .ok unit) (reason : String) :
      Scripts order settings wanted feature recipe (tool :: tools) done
        (done.append (.ofSkipped unit reason))
  | written {tool : Value} {tools : List Value} {done g : Generation} {backend : Backend}
      {directory : Path} (hwants : Wants wanted tool)
      (hfind : order.registry.findNamed? tool = .ok (some backend))
      (hplace : order.outputDir settings backend = .ok directory)
      (rest : Scripts order settings wanted feature recipe tools (done.append (.ofWritten
        ⟨directory.child ("feature-" ++ feature.id.display ++ ".sh"), recipe.id, backend.id,
          some feature.id⟩)) g) :
      Scripts order settings wanted feature recipe (tool :: tools) done g

theorem ends_featureScripts (feature : Feature) (recipe : Recipe) (tools : List Value)
    (done : Generation) :
    Ends (fun bench : Bench => store.Ready bench.store)
      (fun g bench => order.Scripts store.settings wanted feature recipe tools done g ∧
        store.Ready bench.store)
      (order.featureScripts wanted feature recipe tools done) := by
  induction tools generalizing done with
  | nil => exact Ends.pure fun bench hs => ⟨.none done, hs⟩
  | cons tool tools ih =>
      have hwants : ((!wanted.isEmpty) = true ∧ (!wanted.any (·.same tool)) = true) ↔
          ¬ Wants wanted tool := by
        simp [Wants, not_or]
      unfold featureScripts
      refine Ends.narrowed (fun hp hr => ?_) fun hnot => ?_
      · exact (ih done).mono (fun _ hs => hs) fun _ _ hs =>
          ⟨.unwanted (hwants.1 ⟨hp, hr⟩) hs.1, hs.2⟩
      · have hwants : Wants wanted tool := not_not.1 fun h => hnot (hwants.2 h)
        refine Ends.attempt_eq.bind fun found => Ends.assuming fun hfind => ?_
        cases found with
        | none =>
            refine (Ends.tell _).bind fun _ => ?_
            refine Ends.attempt_eq.bind fun unit => Ends.assuming fun hunit => ?_
            refine Ends.attempt.bind fun shown => ?_
            exact (ih _).mono (fun _ hs => hs) fun _ _ hs => ⟨.unknown hwants hunit _ hs.1, hs.2⟩
        | some backend =>
            refine (order.ends_compile (fun _ shelf h => h.keepAgents shelf) (some feature) recipe
              backend.id).bind fun result => ?_
            cases result with
            | error fault =>
                refine (Ends.tell _).bind fun _ => ?_
                refine Ends.attempt_eq.bind fun unit => Ends.assuming fun hunit => ?_
                exact Ends.pure fun _ hs => ⟨.failed tools done hwants hunit _, hs⟩
            | ok text =>
                refine Ends.get fun bench hbench => ?_
                refine Ends.attempt_eq.bind fun directory => Ends.assuming fun hplace => ?_
                rw [hbench.settings] at hplace
                refine ((ends_inStore (Store.ends_write directory _ text)).mono
                  (fun _ heq => heq ▸ hbench) fun _ _ hs => hs).bind fun _ => ?_
                exact (ih _).mono (fun _ hs => hs) fun _ _ hs =>
                  ⟨.written hwants hfind hplace hs.1, hs.2⟩

/-- The scripts of a feature add to a report what concerns it, something for a wanted tool. -/
theorem Scripts.adds {order : Order} {settings : Settings} {feature : Feature} {recipe : Recipe}
    {tools : List Value} {done g : Generation}
    (h : order.Scripts settings wanted feature recipe tools done g) :
    Adds wanted feature tools done g := by
  have hskipped (unit : Value) (hunit : featureUnit feature = .ok unit) (reason : String) :
      (Generation.ofSkipped unit reason).Concerns feature ∧
        ¬ (Generation.ofSkipped unit reason).IsEmpty :=
    ⟨⟨by simp [Generation.ofSkipped], by simp [Generation.ofSkipped, hunit]⟩,
      by simp [Generation.IsEmpty, Generation.ofSkipped]⟩
  induction h with
  | none done =>
      refine ⟨.empty, ?_, Generation.concerns_empty feature, ?_⟩
      · simp [Generation.append, Generation.empty]
      · simp [Generation.IsEmpty, Generation.empty]
  | unwanted hnot _ ih => exact ih.skip hnot
  | unknown hwants hunit reason _ ih =>
      obtain ⟨hconcerns, hfilled⟩ := hskipped _ hunit reason
      exact ih.cons hwants hconcerns hfilled
  | failed tools done hwants hunit reason =>
      obtain ⟨hconcerns, hfilled⟩ := hskipped _ hunit reason
      exact adds_last tools hwants done hconcerns hfilled
  | written hwants _ _ _ ih =>
      refine ih.cons hwants ⟨?_, ?_⟩ ?_
      · simp [Generation.ofWritten]
      · simp [Generation.ofWritten]
      · simp [Generation.IsEmpty, Generation.ofWritten]

/-- What is done for a feature: its scripts, where it names a recipe and this is there. -/
inductive Handles (order : Order) (store : Store) (wanted : List Value) (feature : Feature) :
    Generation → Prop where
  | unbound (hnone : feature.recipe = none) : Handles order store wanted feature .empty
  | missing {binding : RecipeBinding} {unit : Value} (hbinding : feature.recipe = some binding)
      (hfound : ((Store.getRecipe binding.id).runFrom store).1 = .ok none)
      (hunit : featureUnit feature = .ok unit) (reason : String) :
      Handles order store wanted feature (.ofSkipped unit reason)
  | bound {binding : RecipeBinding} {recipe : Recipe} {g : Generation}
      (hbinding : feature.recipe = some binding)
      (hfound : ((Store.getRecipe binding.id).runFrom store).1 = .ok (some recipe))
      (scripts : order.Scripts store.settings wanted feature recipe
        (feature.targets recipe store.settings.defaultTools) .empty g) :
      Handles order store wanted feature g

theorem ends_feature (feature : Feature) :
    Ends (fun bench : Bench => store.Onward bench.store)
      (fun g bench => order.Handles store wanted feature g ∧ store.Onward bench.store)
      (order.feature wanted feature) := by
  unfold Order.feature
  split
  · exact Ends.pure fun _ hs => ⟨.unbound ‹_›, hs⟩
  · rename_i binding hbinding
    refine (ends_inStore (Store.ends_getRecipe binding.id)).bind fun found => Ends.assuming
      fun hfound => ?_
    cases found with
    | none =>
        refine (Ends.tell _).bind fun _ => ?_
        refine Ends.attempt_eq.bind fun unit => Ends.assuming fun hunit => ?_
        refine Ends.attempt.bind fun shown => Ends.pure fun _ hs => ?_
        exact ⟨.missing hbinding hfound hunit _, hs.toOnward⟩
    | some recipe =>
        have hcache : Ends (fun bench : Bench => store.Ready bench.store)
            (fun _ bench => store.Ready bench.store)
            (Work.change fun bench : Bench => { bench with cache := [] }) :=
          Ends.change fun _ hs => hs
        refine hcache.bind fun _ => Ends.get fun bench hbench => ?_
        rw [hbench.settings]
        exact (order.ends_featureScripts feature recipe _ .empty).mono (fun _ heq => heq ▸ hbench)
          fun _ _ hs => ⟨.bound hbinding hfound hs.1, hs.2.toOnward⟩

/-- A feature is reported as its recipe and the wanted tools have it. -/
theorem Handles.reports {order : Order} {feature : Feature} {g : Generation}
    (h : order.Handles store wanted feature g) : feature.Reports store wanted g := by
  cases h with
  | unbound hnone =>
      refine ⟨Generation.concerns_empty feature, iff_of_true ⟨rfl, rfl⟩ ?_⟩
      rintro ⟨binding, found, hbinding, -⟩
      cases hnone.symm.trans hbinding
  | @missing binding unit hbinding hfound hunit reason =>
      refine ⟨⟨?_, ?_⟩, iff_of_false ?_ (not_not.2 ⟨binding, none, hbinding, hfound, nofun⟩)⟩
      · simp [Generation.ofSkipped]
      · simp [Generation.ofSkipped, hunit]
      · simp [Generation.IsEmpty, Generation.ofSkipped]
  | @bound binding recipe g hbinding hfound scripts =>
      obtain ⟨more, rfl, hmore, hempty⟩ := scripts.adds
      refine ⟨hmore, hempty.trans ?_⟩
      constructor
      · rintro hnone ⟨other, found, hother, hfound', htools⟩
        cases hbinding.symm.trans hother
        cases hfound.symm.trans hfound'
        obtain ⟨tool, htool, hwants⟩ := htools recipe rfl
        exact hnone tool htool hwants
      · intro hdue tool htool hwants
        refine hdue ⟨binding, _, hbinding, hfound, ?_⟩
        rintro _ ⟨rfl⟩
        exact ⟨tool, htool, hwants⟩

/-- A pass over a list gives a report of each of its members, in their order. -/
theorem ends_groups {α σ : Type} {I : σ → Prop} {Q : α → Generation → Prop}
    {work : α → Work σ Generation} (l : List α)
    (h : ∀ a ∈ l, Ends I (fun g s => Q a g ∧ I s) (work a)) (done : Generation) :
    Ends I (fun g s => (∃ groups, g = groups.foldl Generation.append done ∧
        List.Forall₂ Q l groups) ∧ I s)
      (l.foldlM (fun done a => do return done.append (← work a)) done) := by
  induction l generalizing done with
  | nil => exact Ends.pure fun _ hs => ⟨⟨[], rfl, .nil⟩, hs⟩
  | cons a l ih =>
      rw [List.foldlM_cons]
      have hrest (more : Generation) :=
        ih (fun other hother => h other (List.mem_cons_of_mem _ hother)) more
      refine Ends.bind ((h a List.mem_cons_self).bind fun g =>
        Ends.pure (J := fun more s => (∃ g, more = done.append g ∧ Q a g) ∧ I s)
          fun _ hs => ⟨⟨g, rfl, hs.1⟩, hs.2⟩) fun more => Ends.assuming ?_
      rintro ⟨g, rfl, hg⟩
      refine (hrest _).mono (fun _ hs => hs) ?_
      rintro _ s ⟨⟨groups, rfl, hgroups⟩, hs⟩
      exact ⟨⟨g :: groups, rfl, .cons hg hgroups⟩, hs⟩

end Order

/-! ## Loading the features -/

namespace Store

variable {store : Store}

/-- What an id leads to: the features below its directory, or none where it has no directory. -/
def FeaturesOf (store : Store) (id : Value) (features : List Feature) : Prop :=
  ∃ found, store.projectDir? id = .ok found ∧ (found = none → features = []) ∧
    ∀ directory, found = some directory → FeaturesBelow store.tree directory features

theorem ends_loadFeatures (id : Value) :
    Ends store.Onward (fun features mid => mid.FeaturesOf id features ∧ store.Onward mid)
      (loadFeatures id) := by
  intro mid log features t log' hmid hexec
  cases hdirectory : mid.projectDir? id with
  | error fault =>
      have hfind := exec_findProjectDir mid id log
      rw [hdirectory] at hfind
      unfold loadFeatures at hexec
      rw [exec_bind_error hfind] at hexec
      cases hexec
  | ok found =>
      cases found with
      | none =>
          have hfind := exec_findProjectDir mid id log
          rw [hdirectory] at hfind
          unfold loadFeatures at hexec
          rw [exec_bind_ok hfind] at hexec
          cases hexec
          exact ⟨⟨none, hdirectory, fun _ => rfl, fun _ h => by cases h⟩, hmid⟩
      | some directory =>
          obtain ⟨paths, own, documents, rfl, hpaths, hload, -, hfeatures, -⟩ :=
            of_exec_loadFeatures_ok hdirectory hexec
          refine ⟨⟨_, hdirectory, fun h => (by cases h), ?_⟩, hmid⟩
          rintro _ ⟨rfl⟩
          exact ⟨paths, own, documents, hpaths, hload, hfeatures⟩

end Store

/-! ## Generating for features -/

namespace Order

variable {store : Store} (order : Order) {wanted : List Value}

/-- Each feature that the declared id leads to is handled, and nothing else is reported. -/
theorem ends_handled :
    Ends store.Onward (fun g last => (∃ mid features groups, store.Onward mid ∧
        mid.FeaturesOf order.project.id features ∧ g = groups.foldl Generation.append .empty ∧
          List.Forall₂ (order.Handles store wanted) features groups) ∧ store.Onward last)
      (order.features wanted) := by
  unfold features
  refine ends_fresh ?_
  have hrest (I : Bench → Prop) (hI : ∀ bench, I bench → store.Onward bench.store) :
      Ends I (fun g bench => (∃ mid features groups, store.Onward mid ∧
        mid.FeaturesOf order.project.id features ∧ g = groups.foldl Generation.append .empty ∧
          List.Forall₂ (order.Handles store wanted) features groups) ∧
            store.Onward bench.store) (do
        let features ← Bench.inStore (Store.loadFeatures order.project.id)
        features.foldlM (fun done feature => do
          return done.append (← order.feature wanted feature)) Generation.empty) := by
    refine ((ends_inStore (Store.ends_loadFeatures order.project.id)).mono hI fun _ _ h => h).bind
      fun features => Ends.fixed ?_
    rintro bench ⟨hfeatures, hbench⟩
    refine (ends_groups features (fun feature _ => order.ends_feature feature) .empty).mono
      (fun _ heq => heq ▸ hbench) ?_
    rintro g last ⟨⟨groups, hg, hgroups⟩, hlast⟩
    exact ⟨⟨bench.store, features, groups, hbench, hfeatures, hg, hgroups⟩, hlast⟩
  exact Ends.ite (fun _ => (Ends.throw _).bind fun _ => hrest _ fun _ hs => hs)
    fun _ => hrest _ fun _ hs => hs

/-- All that is reported of features: a report for each one that the declared id leads to. -/
theorem ends_features :
    Ends store.Onward (fun g last => (∃ mid features groups, store.Onward mid ∧
        mid.FeaturesOf order.project.id features ∧ g = groups.foldl Generation.append .empty ∧
          List.Forall₂ (Feature.Reports store wanted) features groups) ∧ store.Onward last)
      (order.features wanted) := by
  refine order.ends_handled.mono (fun _ hs => hs) ?_
  rintro g last ⟨⟨mid, features, groups, hmid, hfeatures, hg, hgroups⟩, hlast⟩
  exact ⟨⟨mid, features, groups, hmid, hfeatures, hg, hgroups.imp fun _ _ h => h.reports⟩, hlast⟩

end Order

theorem Generation.append_foldl (g g' : Generation) (groups : List Generation) :
    g.append (groups.foldl append g') = groups.foldl append (g.append g') := by
  induction groups generalizing g' with
  | nil => rfl
  | cons group groups ih => rw [List.foldl_cons, List.foldl_cons, ih, append_assoc]

namespace Store

/--
The features for which a project is generated are those of the directory that
its declared id leads to once the scripts of its recipes are written. Each has
its part of the report, which is empty unless the feature is due. Where the id
leads back to the directory of the manifest, these are the features that were
found below it, and what it leads to is as before unless a way goes back up.
-/
theorem features_of_generate {store : Store} (proper : store.tree.Proper) {id : Value}
    {wanted : List Value} {registry : Registry} {time : String} {g : Generation}
    {rest : Store × Log}
    (h : (generate id wanted registry time).runFrom store = (.ok g, rest)) :
    ∃ project directory, (loadProject id).runFrom store = (.ok project, store, []) ∧
      store.projectDir? id = .ok (some directory) ∧ project.sourceDir = directory.text ∧
      ∃ features recipes groups, Order.OfRecipes recipes ∧
        g = groups.foldl Generation.append recipes ∧
        List.Forall₂ (Feature.Reports store wanted) features groups ∧
        (∃ mid, store.Onward mid ∧ mid.FeaturesOf project.id features ∧
          (mid.projectDir? project.id = .ok (some directory) →
            FeaturesBelow store.tree directory features)) ∧
        (store.LooksDown project.id → store.FeaturesOf project.id features) := by
  unfold generate at h
  obtain ⟨project, ⟨loaded, log⟩, hproject, h⟩ := of_exec_bind_ok h
  obtain ⟨directory, _, _, hdirectory, -, -, hread, hloaded⟩ := of_exec_loadProject_ok hproject
  cases hloaded
  rw [exec_bind_ok (exec_state _ _)] at h
  obtain ⟨recipes, ⟨mid, midLog⟩, hrecipes, h⟩ := of_exec_bind_ok h
  obtain ⟨hnone, hmid⟩ := (Order.mk project time registry).ends_recipesFor _ store [] recipes mid
    midLog (onward_refl store) hrecipes
  obtain ⟨ofFeatures, ⟨last, lastLog⟩, hfeatures, h⟩ := of_exec_bind_ok h
  cases h
  obtain ⟨⟨own, features, groups, hown, hleads, rfl, hgroups⟩, -⟩ :=
    (Order.mk project time registry).ends_features mid midLog ofFeatures last lastLog hmid hfeatures
  refine ⟨project, directory, hproject, hdirectory, (Project.of_ofValue hread).2, features, recipes,
    groups, hnone, ?_, hgroups, ⟨own, hown, hleads, fun hback => ?_⟩, fun hdown => ?_⟩
  · rw [Generation.append_foldl]
    simp [Generation.append, Generation.empty]
  · obtain ⟨found, hfound, -, hbelow⟩ := hleads
    cases hback.symm.trans hfound
    obtain ⟨entries, hlook⟩ := exists_look_of_projectDir? hdirectory
    exact (hbelow directory rfl).of_scripted hown.tree proper hlook
  · obtain ⟨found, hfound, hnone, hbelow⟩ := hleads
    have hsame := projectDir?_of_scripted hdown hown.tree hown.settings hfound
    refine ⟨found, hsame, hnone, fun other hother => ?_⟩
    subst hother
    obtain ⟨entries, hlook⟩ := exists_look_of_projectDir? hsame
    exact (hbelow other rfl).of_scripted hown.tree proper hlook

/-- A project whose declared id is not the name of its directory. -/
def misnamedTree : Tree := .directory
  [("04_agents", .directory [("writer.yml", ofFields
      [("id", .text "writer"), ("purpose", .text "To write.")])]),
   ("05_recipes", .directory [("draft.yml", ofFields
      [("id", .text "draft"), ("steps", .list [.mapping
        [(.text "id", .text "write"), (.text "agent", .text "writer"),
         (.text "task", .text "Write.")]])])]),
   ("06_projects", .directory [("local", .directory [("shop", .directory
      [("project.yml", ofFields [("id", .text "store")]),
       ("features", .directory [("login", .directory [("feature.yml", ofFields
          [("recipe", .mapping
            [(.text "id", .text "draft"), (.text "tools", .list [.text "cursor"])])])])])])])])]

def loginFeature : Feature :=
  ⟨.text "login", .text "", "", .text "", none, some ⟨.text "draft", [], ["cursor"]⟩⟩

/-- The feature below the directory is due, but nothing is generated for it. -/
theorem features_of_generate_misnamed :
    let store := ofSettings misnamedTree shopSettings
    let wanted := [Value.text "cursor"]
    ∃ directory, store.projectDir? (.text "shop") = .ok (some directory) ∧
      FeaturesBelow store.tree directory [loginFeature] ∧ loginFeature.IsDue store wanted ∧
      ∃ g rest, (generate (.text "shop") wanted Registry.builtIn "").runFrom store =
        (.ok g, rest) ∧ ∀ script ∈ g.written, script.feature = none := by
  intro store wanted
  have proper : store.tree.Proper := by
    simp [store, ofSettings, misnamedTree, ofFields, Tree.Proper, Tree.ProperEntries]
  have hdirectory : store.projectDir? (.text "shop") =
      .ok (some ⟨.root, ["06_projects", "local", "shop"]⟩) := by with_unfolding_all rfl
  have hlost : store.projectDir? (.text "store") = .ok none := by with_unfolding_all rfl
  have hsources : store.settings.projectDirs = .ok [⟨.root, ["06_projects", "local"]⟩] := by
    with_unfolding_all rfl
  obtain ⟨found, _, _, hfound⟩ : Gives (getRecipe (.text "draft")) store :=
    gives_of_toBool (by decide +kernel)
  obtain ⟨g, last, log, hgenerate⟩ :
      Gives (generate (.text "shop") wanted Registry.builtIn "") store :=
    gives_of_toBool (by decide +kernel)
  obtain ⟨project, directory, hproject, hown, hsource, features, recipes, groups, hnone, hg,
    hgroups, -, hdown⟩ := features_of_generate proper hgenerate
  refine ⟨_, hdirectory, ?_, ?_, g, _, hgenerate, ?_⟩
  · exact ⟨_, _, _, by with_unfolding_all rfl, Prod.ext rfl rfl, by with_unfolding_all rfl⟩
  · refine ⟨_, found, rfl, congrArg Prod.fst hfound, fun recipe _ => ?_⟩
    exact ⟨.text "cursor", by simp [Feature.targets, loginFeature],
      .inr ⟨_, List.mem_cons_self, by simp⟩⟩
  · have hid : ((loadProject (.text "shop")).runFrom store).1.map (·.id) = .ok (.text "store") := by
      with_unfolding_all rfl
    rw [hproject] at hid
    have hid : project.id = .text "store" := Except.ok.inj hid
    have down : store.LooksDown project.id := by
      intro sources name hsources' hname source hmem
      cases hid.symm.trans hname
      cases hsources.symm.trans hsources'
      rw [List.mem_singleton.1 hmem]
      decide +kernel
    have hempty : features = [] := by
      obtain ⟨found, hfound, hnil, -⟩ := hdown down
      rw [hid, hlost] at hfound
      exact hnil (Except.ok.inj hfound).symm
    subst hempty
    cases hgroups
    rw [hg]
    exact hnone

end Store

end Playbook
