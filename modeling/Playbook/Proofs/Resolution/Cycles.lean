import Playbook.Proofs.Inheritance.Cycles
import Playbook.Proofs.Resolution.Reports

/-!
# Cycles that resolving truncates

Resolving and the search of the graph follow inheritance from different ids,
and neither goes through an id twice. A circle that resolving truncates need
not be a cycle that the graph lists, if it shares a step with another circle.
-/

namespace Playbook

open Work

namespace RulepackView

def Report.circle? : Report → Option (List String)
  | .circle ids => some ids
  | .missing _ _ => none

variable {reports : List Report}

theorem mem_circles_iff {circle : List String} :
    circle ∈ reports.filterMap Report.circle? ↔ .circle circle ∈ reports := by
  rw [List.mem_filterMap]
  constructor
  · rintro ⟨report, hreport, hcircle⟩
    cases report with
    | circle ids =>
        cases hcircle
        exact hreport
    | missing id referrer => cases hcircle
  · exact fun h => ⟨_, h, rfl⟩

/-- The warnings of cycles among some reports are those of the circles, in their order. -/
theorem filter_warns_cycle :
    (reports.map Report.entry).filter (·.warns cycleHead) =
      (reports.filterMap Report.circle?).map cycleWarning := by
  induction reports with
  | nil => rfl
  | cons report reports ih =>
      cases report with
      | circle circle =>
          simpa [Report.entry, Report.circle?, List.filterMap_cons, warns_cycleWarning] using ih
      | missing id referrer =>
          simpa [Report.entry, Report.circle?, List.filterMap_cons, not_warns_missingWarning]
            using ih

end RulepackView

namespace Resolver

variable {items : List (Value × Rulepack)} {roots : List String}

/-- The graph of what some rulepacks extend. -/
def graphOf (items : List (Value × Rulepack)) : Graph :=
  (byText items).map fun pack => (pack.1, pack.2.extends)

theorem letsAllIn (items : List (Value × Rulepack)) (languages : List String) :
    (view items none languages).LetsAllIn := ⟨fun _ => rfl, fun _ => rfl⟩

theorem log_rulesOf_none (admissions : Admissions) (items : List (Value × Rulepack))
    (roots : List String) (referrer : String) (languages : List String) :
    ((rulesOf roots none referrer languages).runFrom ⟨admissions, .ready items⟩).2.2 =
      ((view items none languages).flatten referrer roots).log := by
  by_cases hroots : roots = []
  · rw [log_rulesOf_eq_nil (.inl hroots), hroots]
    rfl
  · have hreport : Admissions.Reportable none .rulepacks := by rintro p ⟨⟩
    rw [log_rulesOf admissions items hroots hreport]
    rfl

/--
The circles that are truncated for some roots, against the cycles that the
graph lists. Each of them is a circle and shares a step with a cycle that is
listed, and a circle that shares no step with any other is listed itself. For
all ids in order the two are the same.
-/
structure Truncated (graph : Graph) (roots : List String) (circles : List (List String)) :
    Prop where
  closed : ∀ circle ∈ circles, IsCircle graph.Extends circle
  shared : ∀ circle ∈ circles, ∃ cycle ∈ graph.cycles,
    IsCircle graph.Extends cycle ∧ SharesStep circle cycle
  listed : ∀ circle ∈ circles,
    (∀ other, IsCircle graph.Extends other → SharesStep circle other → SameCircle circle other) →
      ∃ cycle ∈ graph.cycles, SameCircle circle cycle
  in_order : roots = graph.inOrder →
    (∀ circle ∈ circles, ∃ cycle ∈ graph.cycles, SameCircle circle cycle) ∧
      ∀ cycle ∈ graph.cycles, ∃ circle ∈ circles, SameCircle circle cycle

theorem exists_truncated_rulesOf (admissions : Admissions) (items : List (Value × Rulepack))
    (roots : List String) (referrer : String) (languages : List String) :
    ∃ circles,
      ((rulesOf roots none referrer languages).runFrom ⟨admissions, .ready items⟩).2.2.filter
          (·.warns RulepackView.cycleHead) = circles.map RulepackView.cycleWarning ∧
        Truncated (graphOf items) roots circles := by
  have all := letsAllIn items languages
  obtain ⟨ids, reports, search⟩ :=
    RulepackView.exists_searches_flatten (view items none languages) referrer roots
  refine ⟨reports.filterMap RulepackView.Report.circle?, ?_, ?_⟩
  · rw [log_rulesOf_none, search.log_eq]
    exact RulepackView.filter_warns_cycle
  have hclosed : ∀ circle ∈ reports.filterMap RulepackView.Report.circle?,
      IsCircle (graphOf items).Extends circle := by
    intro circle hcircle
    have hcloses := search.isCircle (RulepackView.mem_circles_iff.1 hcircle)
    rwa [all.inherits_eq] at hcloses
  have hshared : ∀ circle ∈ reports.filterMap RulepackView.Report.circle?,
      ∃ cycle ∈ (graphOf items).cycles,
        IsCircle (graphOf items).Extends cycle ∧ SharesStep circle cycle := by
    intro circle hcircle
    obtain ⟨cycle, hcycle, hshares⟩ := Graph.exists_cycle_sharesStep (hclosed circle hcircle)
    exact ⟨cycle, hcycle, Graph.isCircle_of_mem_cycles hcycle, hshares⟩
  refine ⟨hclosed, hshared, fun circle hcircle halone => ?_, ?_⟩
  · obtain ⟨cycle, hcycle, hcloses, hshares⟩ := hshared circle hcircle
    exact ⟨cycle, hcycle, halone cycle hcloses hshares⟩
  · rintro rfl
    refine ⟨fun circle hcircle => ?_, fun cycle hcycle => ?_⟩
    · have hreported := RulepackView.mem_circles_iff.1 hcircle
      exact ⟨_, (search.mem_cycles_iff all).2 ⟨circle, hreported, rfl⟩,
        (RulepackView.isCircle_cycleOf (hclosed circle hcircle)).2⟩
    · obtain ⟨circle, hreported, rfl⟩ := (search.mem_cycles_iff all).1 hcycle
      have hcircle := RulepackView.mem_circles_iff.2 hreported
      exact ⟨circle, hcircle, (RulepackView.isCircle_cycleOf (hclosed circle hcircle)).2⟩

/-- Two circles through `a` and `b`: a short one, and one by way of `c`. -/
def overlappingPacks : List (Value × Rulepack) :=
  let pack (id : String) (parents : List String) : Value × Rulepack :=
    (.text id, { (default : Rulepack) with id := .text id, «extends» := parents })
  [pack "a" ["b", "c"], pack "b" ["a"], pack "c" ["b"]]

/-- From `c` the long circle is truncated; the graph lists the short one only. -/
theorem exists_truncated_rulesOf_overlapping :
    let graph := graphOf overlappingPacks
    ∃ circles,
      ((rulesOf ["c"] none "" []).runFrom ⟨⟨[], []⟩, .ready overlappingPacks⟩).2.2.filter
          (·.warns RulepackView.cycleHead) = circles.map RulepackView.cycleWarning ∧
        Truncated graph ["c"] circles ∧
        RulepackView.cycleWarning ["c", "b", "a", "c"] ∈
          circles.map RulepackView.cycleWarning ∧
        IsCircle graph.Extends ["c", "b", "a", "c"] ∧
        ∀ cycle ∈ graph.cycles, ¬ SameCircle ["c", "b", "a", "c"] cycle := by
  intro graph
  obtain ⟨circles, hlog, htruncated⟩ :=
    exists_truncated_rulesOf ⟨[], []⟩ overlappingPacks ["c"] "" []
  refine ⟨circles, hlog, htruncated, ?_, ?_, ?_⟩
  · rw [← hlog]
    decide +kernel
  · refine ⟨["c", "b", "a"], "c", rfl, rfl, by decide, ?_⟩
    change List.IsChain (fun id parent => parent ∈ graph.parents id ∧ graph.knows parent = true) _
    decide +kernel
  · have hcycles : graph.cycles = [["a", "b", "a"]] := by
      have horder : graph.inOrder = ["a", "b", "c"] :=
        List.mergeSort_of_pairwise (by decide +kernel)
      have hsearch : graph.search =
          graph.inOrder.foldl (Graph.visit graph (graph.length + 1) []) ⟨[], []⟩ := rfl
      rw [Graph.cycles, hsearch, horder]
      decide +kernel
    intro cycle hcycle hsame
    rw [hcycles, List.mem_singleton] at hcycle
    subst hcycle
    exact absurd hsame.perm.length_eq (by decide)

end Resolver

end Playbook
