import Mathlib.Data.List.Perm.Subperm
import Playbook.Proofs.Inheritance.Reports

/-!
# The search of a graph along flattening

Where everything is let in, the search of a graph goes the way of flattening:
it has left what flattening has met, apart from the way to the id at hand, and
it lists the circles that flattening reports, each from its least id on.
-/

namespace Playbook

namespace Graph

/-- The first id extends the second, which is known. -/
def Extends (graph : Graph) (id parent : String) : Prop :=
  parent ∈ graph.parents id ∧ graph.knows parent = true

variable {graph : Graph} {fuel : Nat} {path : List String} {s : Search} {id : String}

theorem length_le_of_known {path : List String} (hnodup : path.Nodup)
    (hknown : ∀ id ∈ path, graph.knows id = true) : path.length ≤ graph.length := by
  have hsub : path ⊆ graph.map (·.1) := by
    intro id hid
    obtain ⟨entry, hmem, heq⟩ := List.lookup_isSome_iff.1 (hknown id hid)
    exact List.mem_map.2 ⟨entry, hmem, (beq_iff_eq.1 heq).symm⟩
  simpa using (List.subperm_of_subset hnodup hsub).length_le

theorem knows_of_mem {entry : String × List String} (h : entry ∈ graph) :
    graph.knows entry.1 = true :=
  List.lookup_isSome_iff.2 ⟨entry, h, beq_self_eq_true _⟩

/-- The ids in the order in which they are searched. -/
def inOrder (graph : Graph) : List String :=
  (graph.map (·.1)).mergeSort fun a b => !decide (b < a)

theorem mem_inOrder : id ∈ graph.inOrder ↔ graph.knows id = true := by
  rw [inOrder, List.mem_mergeSort, List.mem_map, knows, List.lookup_isSome_iff]
  simp only [beq_iff_eq, eq_comm (a := id)]

/-! ## One visit -/

theorem Search.mem_found_add {circle other : List String} :
    other ∈ (s.add circle).found ↔ other ∈ s.found ∨ other = circle := by
  rw [add]
  split
  · rename_i hmem
    rw [List.contains_iff_mem] at hmem
    exact ⟨.inl, fun h => h.elim id fun heq => heq ▸ hmem⟩
  · simp

theorem visit_of_mem_path (h : id ∈ path) :
    visit graph (fuel + 1) path s id = s.add (rotate (path.dropWhile (· != id))) := by
  rw [visit, if_pos (List.contains_iff_mem.2 h)]

theorem visit_of_done (h : id ∉ path) (hdone : id ∈ s.done ∨ graph.knows id = false) :
    visit graph (fuel + 1) path s id = s := by
  rw [visit, if_neg (mt List.contains_iff_mem.1 h), if_pos]
  rcases hdone with hdone | hunknown
  · simp [hdone]
  · simp [hunknown]

theorem visit_of_new (h : id ∉ path) (hnew : id ∉ s.done) (hknown : graph.knows id = true) :
    visit graph (fuel + 1) path s id =
      let below := (graph.parents id).foldl (visit graph fuel (path ++ [id])) s
      { below with done := id :: below.done } := by
  rw [visit, if_neg (mt List.contains_iff_mem.1 h), if_neg]
  simp [hnew, hknown]

end Graph

namespace RulepackView

/-- What extends what, let in or not. -/
def graph (view : RulepackView) : Graph := view.packs.map fun pack => (pack.1, pack.2.extends)

/-- Each id of a graph as a rulepack that extends what it lists, all let in. -/
def ofGraph (graph : Graph) : RulepackView where
  packs := graph.map fun node => (node.1, { (default : Rulepack) with «extends» := node.2 })
  admits _ := true
  allows _ := true

theorem graph_ofGraph (graph : Graph) : (ofGraph graph).graph = graph := by
  simp [RulepackView.graph, ofGraph, Function.comp_def]

def LetsAllIn (view : RulepackView) : Prop :=
  (∀ id, view.admits id = true) ∧ ∀ pack, view.allows pack = true

variable {view : RulepackView} {referrer : String} {path roots ids : List String}
variable {f g : Flattening} {reports : List Report} {id parent : String}

/-! ## The graph of some rulepacks -/

theorem lookup_graph (view : RulepackView) (id : String) :
    view.graph.lookup id = (view.lookup id).map (·.extends) := by
  rw [graph, lookup]
  induction view.packs with
  | nil => rfl
  | cons pack packs ih =>
      rw [List.map_cons, List.lookup_cons, List.lookup_cons, ih]
      cases id == pack.1 <;> rfl

theorem parents_graph (view : RulepackView) (id : String) :
    view.graph.parents id = view.parents id := by
  rw [Graph.parents, lookup_graph, parents]

theorem knows_graph (view : RulepackView) (id : String) :
    view.graph.knows id = (view.lookup id).isSome := by
  rw [Graph.knows, lookup_graph, Option.isSome_map]

theorem letsAllIn_ofGraph (graph : Graph) : (ofGraph graph).LetsAllIn :=
  ⟨fun _ => rfl, fun _ => rfl⟩

theorem LetsAllIn.admitted_iff (all : view.LetsAllIn) :
    view.Admitted id ↔ view.graph.knows id = true := by
  rw [Admitted, knows_graph, Option.isSome_iff_exists]
  exact ⟨fun ⟨_, pack, hpack, _⟩ => ⟨pack, hpack⟩,
    fun ⟨pack, hpack⟩ => ⟨all.1 id, pack, hpack, all.2 pack⟩⟩

theorem LetsAllIn.inherits_eq (all : view.LetsAllIn) : view.Inherits = view.graph.Extends := by
  funext id parent
  rw [Inherits, Graph.Extends, all.admitted_iff, all.admitted_iff, parents_graph, knows_graph]
  refine propext ⟨And.right, fun h => ⟨?_, h⟩⟩
  -- An id that is unknown has no parents.
  cases hlookup : view.lookup id with
  | some pack => rfl
  | none => simp [parents, hlookup] at h

/-! ## The search of a graph along flattening -/

/-- What was met has been left, or is on the way. -/
def Mirrors (path : List String) (f : Flattening) (s : Graph.Search) : Prop :=
  ∀ id, id ∈ f.visited ↔ id ∈ s.done ∨ id ∈ path

namespace Mirrors

variable {s : Graph.Search}

theorem add (h : Mirrors path f s) (circle : List String) : Mirrors path f (s.add circle) := by
  rw [Graph.Search.add]
  split
  · exact h
  · exact h

theorem enter (h : Mirrors path f s) (id : String) :
    Mirrors (path ++ [id]) { f with visited := id :: f.visited } s := by
  intro other
  rw [List.mem_cons, h other, List.mem_append, List.mem_singleton]
  tauto

theorem leave (h : Mirrors (path ++ [id]) f s) :
    Mirrors path f { s with done := id :: s.done } := by
  intro other
  rw [h other, List.mem_cons, List.mem_append, List.mem_singleton]
  tauto

end Mirrors

/-- A way of known ids leaves room for one more step. -/
theorem exists_fuel (hnodup : path.Nodup) (hknown : ∀ id ∈ path, view.graph.knows id = true)
    {fuel : Nat} (hfuel : view.packs.length < fuel + path.length) : ∃ k, fuel = k + 1 := by
  have hlength := Graph.length_le_of_known hnodup hknown
  rw [graph, List.length_map] at hlength
  exact Nat.exists_eq_succ_of_ne_zero (by omega)

/-- The circles of some reports, as a search lists them. -/
def Lists (reports : List Report) (s t : Graph.Search) : Prop :=
  ∀ circle, circle ∈ t.found ↔ circle ∈ s.found ∨
    ∃ own, .circle own ∈ reports ∧ circle = Graph.rotate own.dropLast

namespace Lists

variable {s t u : Graph.Search} {others : List Report}

theorem refl (s : Graph.Search) : Lists [] s s := by simp [Lists]

theorem circle {own : List String} (h : Lists reports (s.add (Graph.rotate own.dropLast)) t) :
    Lists (.circle own :: reports) s t := by
  intro circle
  rw [h, Graph.Search.mem_found_add]
  simp [or_assoc]

theorem missing (h : Lists reports s t) : Lists (.missing id referrer :: reports) s t := by
  intro circle
  rw [h]
  simp

theorem append (first : Lists reports s t) (second : Lists others t u) :
    Lists (reports ++ others) s u := by
  intro circle
  rw [second, first, or_assoc]
  simp [or_and_right, exists_or]

end Lists

/-- The search of a graph lists the circles that flattening reports, step by step. -/
theorem Searches.mirrors (all : view.LetsAllIn)
    (search : Searches view referrer path roots f g ids reports) (fuel : Nat)
    (hfuel : view.packs.length < fuel + path.length) (hnodup : path.Nodup)
    (hknown : ∀ id ∈ path, view.graph.knows id = true) (s : Graph.Search)
    (hmirrors : Mirrors path f s) :
    Mirrors path g (roots.foldl (Graph.visit view.graph fuel path) s) ∧
      Lists reports s (roots.foldl (Graph.visit view.graph fuel path) s) := by
  induction search generalizing fuel s with
  | done => exact ⟨hmirrors, .refl s⟩
  | @circle path _ _ _ id _ _ hpath _ ih =>
      obtain ⟨fuel, rfl⟩ := exists_fuel hnodup hknown hfuel
      rw [List.foldl_cons, Graph.visit_of_mem_path hpath]
      have hway : (circleAt path id).dropLast = path.dropWhile (· != id) := List.dropLast_concat
      rw [← hway]
      obtain ⟨hrest, hlists⟩ := ih (fuel + 1) hfuel hnodup hknown _ (hmirrors.add _)
      exact ⟨hrest, hlists.circle⟩
  | @missing path _ _ _ id _ _ hmisses _ ih =>
      obtain ⟨fuel, rfl⟩ := exists_fuel hnodup hknown hfuel
      have hunknown : view.graph.knows id = false := by
        rw [misses, Bool.and_eq_true, Option.isNone_iff_eq_none] at hmisses
        rw [knows_graph, hmisses.2]
        rfl
      have hpath : id ∉ path := fun hpath => by
        cases (hknown id hpath).symm.trans hunknown
      rw [List.foldl_cons, Graph.visit_of_done hpath (.inr hunknown)]
      obtain ⟨hrest, hlists⟩ := ih (fuel + 1) hfuel hnodup hknown s hmirrors
      exact ⟨hrest, hlists.missing⟩
  | @skip path _ _ _ id _ _ hpath hmisses hmet _ ih =>
      obtain ⟨fuel, rfl⟩ := exists_fuel hnodup hknown hfuel
      have hadmitted : view.Admitted id := by
        rw [all.admitted_iff, knows_graph]
        simpa [misses, all.1] using hmisses
      have hdone := ((hmirrors id).1 (hmet hadmitted)).resolve_right hpath
      rw [List.foldl_cons, Graph.visit_of_done hpath (.inl hdone)]
      exact ih (fuel + 1) hfuel hnodup hknown s hmirrors
  | @enter path _ _ _ _ _ id pack _ _ _ hpath hadmitted hlookup hnew search _ ihbelow ih =>
      obtain ⟨fuel, rfl⟩ := exists_fuel hnodup hknown hfuel
      have hid : view.graph.knows id = true := all.admitted_iff.1 hadmitted
      have hundone : id ∉ s.done := fun hdone => hnew ((hmirrors id).2 (.inl hdone))
      have hparents : view.graph.parents id = pack.extends := by
        rw [parents_graph, parents, hlookup]
        rfl
      rw [List.foldl_cons, Graph.visit_of_new hpath hundone hid, hparents]
      obtain ⟨hmid, hbelow⟩ := ihbelow fuel
        (by rw [List.length_append, List.length_singleton]; omega)
        (hnodup.append (List.nodup_singleton id) (by simpa using hpath))
        (by simpa [or_imp, forall_and, hid] using hknown) s (hmirrors.enter id)
      obtain ⟨hrest, hlists⟩ := ih (fuel + 1) hfuel hnodup hknown _ hmid.leave
      exact ⟨hrest, hbelow.append hlists⟩

/-! ## All ids in order -/

/-- For all ids in order flattening reports what the search finds. -/
theorem Searches.mem_found_iff (all : view.LetsAllIn)
    (search : Searches view referrer [] view.graph.inOrder start g ids reports)
    {circle : List String} : circle ∈ view.graph.search.found ↔
      ∃ own, .circle own ∈ reports ∧ circle = Graph.rotate own.dropLast := by
  have hlists := (search.mirrors all (view.graph.length + 1) (by simp [graph]) List.nodup_nil
    (by simp) ⟨[], []⟩ (by simp [Mirrors, start])).2
  have hcircle := hlists circle
  rwa [or_iff_right List.not_mem_nil] at hcircle

/-- All known ids are left in the end. -/
theorem Searches.mem_of_knows (all : view.LetsAllIn)
    (search : Searches view referrer [] view.graph.inOrder start g ids reports)
    (h : view.graph.knows id = true) : id ∈ ids := by
  have hvisits := search.visits (by simp)
  have hmet := hvisits.met id (Graph.mem_inOrder.2 h) (all.admitted_iff.2 h)
  simpa [start] using (hvisits.visited id).1 hmet

theorem Searches.isCircle (search : Searches view referrer [] roots start g ids reports)
    {own : List String} (h : .circle own ∈ reports) : IsCircle view.Inherits own :=
  (search.closed ⟨List.nodup_nil, .nil, by simp, by simp⟩ own h).1

/-- The cycle of a graph that is listed for a circle that is reported. -/
def cycleOf (own : List String) : List String := Graph.close (Graph.rotate own.dropLast)

theorem isCircle_cycleOf {r : String → String → Prop} {own : List String} (h : IsCircle r own) :
    IsCircle r (cycleOf own) ∧ SameCircle own (cycleOf own) :=
  Graph.isCircle_close h (Graph.rotate_isRotated _)

theorem Searches.mem_cycles_iff (all : view.LetsAllIn)
    (search : Searches view referrer [] view.graph.inOrder start g ids reports)
    {cycle : List String} :
    cycle ∈ view.graph.cycles ↔ ∃ own, .circle own ∈ reports ∧ cycle = cycleOf own := by
  rw [Graph.cycles, List.mem_map]
  constructor
  · rintro ⟨circle, hcircle, rfl⟩
    obtain ⟨own, hown, rfl⟩ := (search.mem_found_iff all).1 hcircle
    exact ⟨own, hown, rfl⟩
  · rintro ⟨own, hown, rfl⟩
    exact ⟨_, (search.mem_found_iff all).2 ⟨own, hown, rfl⟩, rfl⟩

end RulepackView

end Playbook
