import Mathlib.Data.List.TakeWhile
import Mathlib.Logic.Relation
import Playbook.Proofs.Inheritance.Search

/-!
# Cycles that a graph lists

What a graph lists as its cycles are circles, and each circle shares a step
with one of them. A graph that lists none is without cycles, and flattening
has no cycle to report then.
-/

namespace Playbook

namespace Graph

open RulepackView

/-- No id leads back to itself. -/
def Acyclic (graph : Graph) : Prop := ∀ id, ¬ Relation.TransGen graph.Extends id id

/--
What a search of the whole graph says: the cycles that are listed are the
circles of its reports, and `ids`, which hold all that is known, stand behind
what they extend by steps that are on none of these circles.
-/
structure Searched (graph : Graph) (ids : List String) (reports : List RulepackView.Report) :
    Prop where
  listed : ∀ cycle, cycle ∈ graph.cycles ↔ ∃ own, .circle own ∈ reports ∧ cycle = cycleOf own
  closed : ∀ own, .circle own ∈ reports → IsCircle graph.Extends own
  left : ∀ id, graph.knows id = true → id ∈ ids
  descends : ∀ r : String → String → Prop, (∀ id parent, r id parent → graph.Extends id parent) →
    (∀ own, .circle own ∈ reports → ∀ step ∈ steps own, ¬ r step.1 step.2) →
      Descends r ids.reverse

theorem exists_searched (graph : Graph) : ∃ ids reports, graph.Searched ids reports := by
  have all := letsAllIn_ofGraph graph
  have hextends : (ofGraph graph).Inherits = graph.Extends := by
    rw [all.inherits_eq, graph_ofGraph]
  obtain ⟨ids, reports, search⟩ :=
    exists_searches_flatten (ofGraph graph) "" (ofGraph graph).graph.inOrder
  refine ⟨ids, reports, fun cycle => ?_, fun own hown => ?_, fun id hid => ?_,
    fun r hr hfree => ?_⟩
  · rw [← search.mem_cycles_iff all, graph_ofGraph]
  · rw [← hextends]
    exact search.isCircle hown
  · exact search.mem_of_knows all (by rwa [graph_ofGraph])
  · rw [← hextends] at hr
    simpa using search.descends hr [] (by simp) hfree (by simp [start]) trivial

variable {graph : Graph}

/-- What a graph lists as its cycles are circles. -/
theorem isCircle_of_mem_cycles {cycle : List String} (h : cycle ∈ graph.cycles) :
    IsCircle graph.Extends cycle := by
  obtain ⟨ids, reports, searched⟩ := exists_searched graph
  obtain ⟨own, hown, rfl⟩ := (searched.listed cycle).1 h
  exact (isCircle_cycleOf (searched.closed own hown)).1

theorem knows_of_mem_circle {circle : List String} (h : IsCircle graph.Extends circle) :
    ∀ id ∈ circle, graph.knows id = true := by
  refine h.forall_mem fun id parent hstep => ⟨?_, hstep.2⟩
  -- An id that is unknown extends nothing.
  cases hlookup : graph.lookup id with
  | none => simp [Extends, parents, hlookup] at hstep
  | some parents => rw [knows, hlookup]; rfl

/-- Every circle shares a step with one that is listed. -/
theorem exists_cycle_sharesStep {circle : List String} (h : IsCircle graph.Extends circle) :
    ∃ cycle ∈ graph.cycles, SharesStep circle cycle := by
  obtain ⟨ids, reports, searched⟩ := exists_searched graph
  by_contra! hnone
  have hfree : ∀ own, .circle own ∈ reports → ¬ SharesStep circle own := by
    intro own hown hshares
    obtain ⟨hcircle, hsame⟩ := isCircle_cycleOf (searched.closed own hown)
    refine hnone _ ((searched.listed _).2 ⟨own, hown, rfl⟩) ?_
    exact ((searched.closed own hown).sharesStep_iff hcircle hsame).1 hshares
  -- Along the steps of the circle nothing would lead back.
  have hdescends := searched.descends (fun a b => (a, b) ∈ steps circle)
    (fun _ _ hstep => isChain_iff_steps.1 h.isChain _ hstep)
    (fun own hown step hstep hshared => hfree own hown ⟨step, hshared, hstep⟩)
  obtain ⟨id, hid, hcycle⟩ := h.along_steps.exists_transGen
  have hleft := searched.left id (knows_of_mem_circle h id hid)
  exact hdescends.not_transGen (List.mem_reverse.2 hleft) hcycle

/-- A graph is without cycles if it lists none that begins at a known id. -/
theorem acyclic_of_cycles (h : ∀ cycle ∈ graph.cycles, graph.knows (cycle.headD "") = false) :
    graph.Acyclic := by
  obtain ⟨ids, reports, searched⟩ := exists_searched graph
  have hnone : ∀ own, .circle own ∉ reports := by
    intro own hown
    have hcycle := (searched.listed _).2 ⟨own, hown, rfl⟩
    have hcircle := isCircle_of_mem_cycles hcycle
    obtain ⟨way, a, heq, hhead, -⟩ := hcircle.closed
    have hknown := knows_of_mem_circle hcircle a (by simp [heq])
    have hunknown := h _ hcycle
    rw [heq, List.headD_eq_head?_getD, List.head?_append, hhead] at hunknown
    cases hknown.symm.trans hunknown
  have hdescends := searched.descends graph.Extends (fun _ _ h => h)
    fun own hown => absurd hown (hnone own)
  intro id hcycle
  obtain ⟨_, -, hextends⟩ := Relation.TransGen.tail'_iff.1 hcycle
  exact hdescends.not_transGen (List.mem_reverse.2 (searched.left id hextends.2)) hcycle

end Graph

end Playbook

/-! ## What flattening reports -/

namespace Playbook.RulepackView

/-- The first id extends the second, let in or not. -/
def Extends (view : RulepackView) (id parent : String) : Prop := parent ∈ view.parents id

/-- A cycle, or an id that is unknown and is given for a root or extended. -/
def Reports (view : RulepackView) (roots : List String) (entry : LogEntry) : Prop :=
  (∃ circle id, entry = cycleWarning circle ∧ Relation.TransGen view.Extends id id) ∨
    ∃ id referrer, entry = missingWarning id referrer ∧ view.lookup id = none ∧
      (id ∈ roots ∨ ∃ child, view.Extends child id)

variable {view : RulepackView} {referrer : String}

/-- The way to an id is of ids that lead to it. -/
theorem reports_expand (fuel : Nat) (path : List String) (f : Flattening) (id : String)
    (hpath : ∀ other ∈ path, Relation.TransGen view.Extends other id) (roots : List String)
    (hroot : id ∈ roots ∨ ∃ child, view.Extends child id)
    (h : ∀ entry ∈ f.log, view.Reports roots entry) :
    ∀ entry ∈ (view.expand referrer fuel path f id).log, view.Reports roots entry := by
  have htell {f : Flattening} {entry : LogEntry} (h : ∀ entry ∈ f.log, view.Reports roots entry)
      (hentry : view.Reports roots entry) :
      ∀ other ∈ (f.tell entry).log, view.Reports roots other := by
    intro other hother
    rcases List.mem_append.1 hother with hother | hother
    · exact h other hother
    · rwa [List.mem_singleton.1 hother]
  induction fuel generalizing path f id with
  | zero => exact h
  | succ fuel ih =>
      rw [expand]
      split
      case isTrue hmem =>
        exact htell h (.inl ⟨_, id, rfl, hpath id (List.contains_iff_mem.1 hmem)⟩)
      case isFalse hmem =>
        split
        case isTrue => exact h
        case isFalse =>
          split
          case isTrue => exact h
          case isFalse =>
            split
            case h_1 hlookup => exact htell h (.inr ⟨id, _, rfl, hlookup, hroot⟩)
            case h_2 pack hlookup =>
              split
              case isTrue => exact h
              case isFalse =>
                have hparents : view.parents id = pack.extends := by simp [parents, hlookup]
                refine List.foldlRecOn (motive := fun g : Flattening =>
                  ∀ entry ∈ g.log, view.Reports roots entry) _ _ h fun g hg parent hparent => ?_
                have hextends : view.Extends id parent := by
                  rw [Extends, hparents]
                  exact hparent
                refine ih _ g parent ?_ (.inr ⟨id, hextends⟩) hg
                intro other hother
                rcases List.mem_append.1 hother with hother | hother
                · exact (hpath other hother).tail hextends
                · rw [List.mem_singleton.1 hother]
                  exact .single hextends

theorem reports_flatten (view : RulepackView) (referrer : String) (roots : List String) :
    ∀ entry ∈ (view.flatten referrer roots).log, view.Reports roots entry :=
  List.foldlRecOn (motive := fun g : Flattening => ∀ entry ∈ g.log, view.Reports roots entry)
    roots _ (by simp [start]) fun g hg root hroot =>
      reports_expand _ [] g root (by simp) roots (.inl hroot) hg

/-- If nothing is unknown only cycles are reported, and they are there. -/
theorem cycle_of_mem_log_flatten {roots : List String}
    (hroots : ∀ root ∈ roots, (view.lookup root).isSome)
    (hparents : ∀ id parent, view.Extends id parent → (view.lookup parent).isSome)
    {entry : LogEntry} (h : entry ∈ (view.flatten referrer roots).log) :
    ∃ circle id, entry = cycleWarning circle ∧ Relation.TransGen view.Extends id id := by
  rcases reports_flatten view referrer roots entry h with hcycle | ⟨id, _, -, hlookup, hid⟩
  · exact hcycle
  · have hknown : (view.lookup id).isSome := by
      rcases hid with hid | ⟨child, hchild⟩
      · exact hroots id hid
      · exact hparents child id hchild
    rw [hlookup] at hknown
    cases hknown

end Playbook.RulepackView
