import Playbook.Proofs.Inheritance.Circles
import Playbook.Proofs.Inheritance.Flattening

/-!
# What flattening reports

Flattening reports a circle exactly if the rulepacks that contribute lead back
to themselves somewhere. It reports an id that is missed once for each time
that the id is asked for.
-/

namespace Playbook.RulepackView

variable {view : RulepackView} {referrer : String} {path roots ids : List String}
variable {f g : Flattening} {reports : List Report}

/-! ## Circles -/

/-- The ids are on the way: each inherits the next, and the last all that is searched below it. -/
structure Leads (view : RulepackView) (path roots : List String) : Prop where
  nodup : path.Nodup
  chain : path.IsChain view.Inherits
  admitted : ∀ id ∈ path, view.Admitted id
  last : ∀ id ∈ path.getLast?, ∀ root ∈ roots, root ∈ view.parents id

namespace Leads

variable {root : String}

theorem tail (h : view.Leads path (root :: roots)) : view.Leads path roots :=
  { h with last := fun id hid other hother => h.last id hid other (List.mem_cons_of_mem _ hother) }

theorem snoc {pack : Rulepack} (h : view.Leads path (root :: roots)) (hpath : root ∉ path)
    (hadmitted : view.Admitted root) (hlookup : view.lookup root = some pack) :
    view.Leads (path ++ [root]) pack.extends where
  nodup := List.nodup_append.2 ⟨h.nodup, List.nodup_singleton root, by
    rintro id hid other hother rfl
    exact hpath (List.mem_singleton.1 hother ▸ hid)⟩
  chain := by
    refine h.chain.append (List.isChain_singleton root) fun last hlast other hother => ?_
    obtain rfl : root = other := by simpa using hother
    exact ⟨h.admitted last (List.mem_of_getLast? hlast), h.last last hlast root List.mem_cons_self,
      hadmitted⟩
  admitted := by simpa [or_imp, forall_and, hadmitted] using h.admitted
  last id hid other hother := by
    obtain rfl : root = id := by simpa using hid
    simpa [parents, hlookup] using hother

theorem closed (h : view.Leads path (root :: roots)) (hpath : root ∈ path) :
    IsCircle view.Inherits (circleAt path root) := by
  obtain ⟨before, behind, rfl, hbefore⟩ := List.eq_append_cons_of_mem hpath
  have hcircle : circleAt (before ++ root :: behind) root = root :: behind ++ [root] := by
    have hdropped : ∀ id ∈ before, (id != root) = true := fun id hid => by
      simpa using ne_of_mem_of_not_mem hid hbefore
    rw [circleAt, List.dropWhile_append_of_pos hdropped]
    simp
  refine ⟨root :: behind, root, hcircle, rfl, (List.nodup_append.1 h.nodup).2.1, ?_⟩
  rw [hcircle]
  refine h.chain.right_of_append.append (List.isChain_singleton root)
    fun last hlast other hother => ?_
  obtain rfl : root = other := by simpa using hother
  have hlast : last ∈ (before ++ root :: behind).getLast? := by
    simpa [List.getLast?_append] using hlast
  exact ⟨h.admitted last (List.mem_of_getLast? hlast), h.last last hlast root List.mem_cons_self,
    h.admitted root hpath⟩

end Leads

namespace Searches

/-- Every circle that is reported is closed, and its ids are on the way or are left. -/
theorem closed (search : Searches view referrer path roots f g ids reports)
    (leads : view.Leads path roots) :
    ∀ circle, .circle circle ∈ reports →
      IsCircle view.Inherits circle ∧ ∀ id ∈ circle, id ∈ path ∨ id ∈ ids := by
  induction search with
  | done => simp
  | circle hpath _ ih =>
      intro circle hcircle
      rcases List.mem_cons.1 hcircle with heq | hcircle
      · cases heq
        refine ⟨leads.closed hpath, fun id hid => .inl ?_⟩
        rcases List.mem_append.1 hid with hid | hid
        · exact (List.dropWhile_sublist _).subset hid
        · rwa [List.mem_singleton.1 hid]
      · exact ih leads.tail circle hcircle
  | missing _ _ ih =>
      intro circle hcircle
      exact ih leads.tail circle (by simpa using hcircle)
  | skip _ _ _ _ ih => exact ih leads.tail
  | enter hpath hadmitted hlookup _ _ _ ihbelow ih =>
      intro circle hcircle
      rcases List.mem_append.1 hcircle with hcircle | hcircle
      · obtain ⟨hclosed, hids⟩ := ihbelow (leads.snoc hpath hadmitted hlookup) circle hcircle
        refine ⟨hclosed, fun id hid => ?_⟩
        rcases hids id hid with hid | hid
        · exact (List.mem_append.1 hid).imp_right fun hid => by simp [List.mem_singleton.1 hid]
        · exact .inr (List.mem_append_left _ hid)
      · obtain ⟨hclosed, hids⟩ := ih leads.tail circle hcircle
        refine ⟨hclosed, fun id hid => (hids id hid).imp_right fun hid => ?_⟩
        exact List.mem_append_right _ (List.mem_cons_of_mem _ hid)

/-- An id of the way that comes up again closes a circle. -/
theorem circle_mem (search : Searches view referrer path roots f g ids reports) {id : String}
    (hroot : id ∈ roots) (hpath : id ∈ path) (hknown : (view.lookup id).isSome) :
    .circle (circleAt path id) ∈ reports := by
  induction search with
  | done => cases hroot
  | circle _ _ ih =>
      rcases List.mem_cons.1 hroot with rfl | hroot
      · exact List.mem_cons_self
      · exact List.mem_cons_of_mem _ (ih hroot hpath)
  | missing hmisses _ ih =>
      rcases List.mem_cons.1 hroot with rfl | hroot
      · simp [misses, Option.isNone_iff_eq_none] at hmisses
        simp [hmisses] at hknown
      · exact List.mem_cons_of_mem _ (ih hroot hpath)
  | skip hnot _ _ _ ih =>
      rcases List.mem_cons.1 hroot with rfl | hroot
      · exact absurd hpath hnot
      · exact ih hroot hpath
  | enter hnot _ _ _ _ _ _ ih =>
      rcases List.mem_cons.1 hroot with rfl | hroot
      · exact absurd hpath hnot
      · exact List.mem_append_right _ (ih hroot hpath)

end Searches

/-! ## Steps that close no circle -/

theorem step_mem_circleAt {id parent : String} (hpath : parent ∈ path ++ [id]) :
    (id, parent) ∈ steps (circleAt (path ++ [id]) parent) := by
  have hsome : (path ++ [id]).dropWhile (· != parent) ≠ [] := by
    rw [Ne, List.dropWhile_eq_nil_iff]
    intro hall
    simpa using hall parent hpath
  obtain ⟨way, hway, -⟩ := (List.suffix_concat_iff.1 (List.dropWhile_suffix _)).resolve_left hsome
  rw [circleAt, hway]
  exact mem_steps_concat way id parent

namespace Searches

/--
A search leaves every id behind all that it inherits by a step that is on no
circle that is closed. `left` are the ids that were left before; what counts
as met is one of them or stands on the way.
-/
theorem descends {r : String → String → Prop} (hr : ∀ id parent, r id parent →
      view.Inherits id parent)
    (search : Searches view referrer path roots f g ids reports)
    (left : List String) (hmet : ∀ id ∈ path, id ∈ f.visited)
    (hfree : ∀ circle, .circle circle ∈ reports → ∀ step ∈ steps circle, ¬ r step.1 step.2)
    (hleft : ∀ id ∈ f.visited, id ∈ left ∨ id ∈ path) (descends : Descends r left) :
    Descends r (ids.reverse ++ left) := by
  induction search generalizing left with
  | done => exact descends
  | circle _ _ ih | missing _ _ ih =>
      exact ih left hmet (fun circle hcircle => hfree circle (List.mem_cons_of_mem _ hcircle))
        hleft descends
  | skip _ _ _ _ ih => exact ih left hmet hfree hleft descends
  | @enter path roots below _ _ _ id pack f mid _ hpath hadmitted hlookup hnew search _ ihbelow
      ih =>
      have hmetbelow : ∀ other ∈ path ++ [id], other ∈ id :: f.visited := by
        simpa [or_imp, forall_and] using fun other hother => .inr (hmet other hother)
      have hvisits := search.visits hmetbelow
      have hbelow := ihbelow left hmetbelow
        (fun circle hcircle => hfree circle (List.mem_append_left _ hcircle))
        (by
          intro other hother
          rcases List.mem_cons.1 hother with rfl | hother
          · exact .inr (by simp)
          · exact (hleft other hother).imp_right (List.mem_append_left _))
        descends
      have hvisited : ∀ other ∈ mid.visited,
          other ∈ (below.reverse ++ left) ∨ other ∈ path ++ [id] := by
        intro other hother
        rcases (hvisits.visited other).1 hother with hother | hother
        · rcases List.mem_cons.1 hother with rfl | hother
          · exact .inr (by simp)
          · exact (hleft other hother).imp (List.mem_append_right _) (List.mem_append_left _)
        · exact .inl (by simp [hother])
      -- A parent that is let in was met below; on the way it closes a circle with this step.
      have hparents : ∀ parent, r id parent → parent ∈ below.reverse ++ left := by
        intro parent hparent
        obtain ⟨-, hextends, hlets⟩ := hr id parent hparent
        have hroot : parent ∈ pack.extends := by simpa [parents, hlookup] using hextends
        refine (hvisited parent (hvisits.met parent hroot hlets)).resolve_right fun hway => ?_
        obtain ⟨-, other, hother, -⟩ := hlets
        have hcircle := search.circle_mem hroot hway (by simp [hother])
        exact hfree _ (List.mem_append_left _ hcircle) _ (step_mem_circleAt hway) hparent
      have hrest := ih (id :: (below.reverse ++ left))
        (fun other hother =>
          (hvisits.visited other).2 (.inl (List.mem_cons_of_mem _ (hmet other hother))))
        (fun circle hcircle => hfree circle (List.mem_append_right _ hcircle))
        (by
          intro other hother
          rcases hvisited other hother with hother | hother
          · exact .inl (List.mem_cons_of_mem _ hother)
          · exact (List.mem_append.1 hother).symm.imp_left fun h => by
              simp [List.mem_singleton.1 h])
        ⟨hparents, hbelow⟩
      simpa using hrest

/-- Each id that is missed is reported for each time that it is asked for. -/
theorem missed (search : Searches view referrer path roots f g ids reports)
    (hknown : ∀ id ∈ path, view.misses id = false) :
    (reports.filterMap Report.missing?).Perm
      ((roots.filter view.misses).map (·, path.getLast?.getD referrer) ++
        ids.flatMap fun id => ((view.parents id).filter view.misses).map (·, id)) := by
  induction search with
  | done => simp
  | circle hpath _ ih =>
      simpa [List.filterMap_cons, Report.missing?, hknown _ hpath] using ih hknown
  | missing hmisses _ ih =>
      simpa [List.filterMap_cons, Report.missing?, hmisses] using ih hknown
  | skip _ hmisses _ _ ih => simpa [hmisses] using ih hknown
  | @enter path roots below ids reports others id pack _ _ _ _ hadmitted hlookup _ _ _ ihbelow ih =>
      have hmisses : view.misses id = false := by simp [misses, hlookup]
      have hparents : view.parents id = pack.extends := by simp [parents, hlookup]
      have hbelow := ihbelow (by simpa [or_imp, forall_and, hmisses] using hknown)
      have hrest := ih hknown
      rw [List.getLast?_concat, Option.getD_some, ← hparents] at hbelow
      rw [List.filterMap_append, List.filter_cons_of_neg (by simp [hmisses]), List.flatMap_append,
        List.flatMap_cons]
      refine (hbelow.append hrest).trans ?_
      rw [List.perm_iff_count]
      intro entry
      simp only [List.count_append]
      omega

end Searches

/-! ## Reports of a whole search -/

/--
What is reported for some roots, where `ids` are those that contribute: closed
circles among them, one at least if they lead back to themselves anywhere, and
each id that is missed, by whom it is asked for and as often.
-/
structure Reported (view : RulepackView) (referrer : String) (roots ids : List String)
    (reports : List Report) : Prop where
  closed : ∀ circle, .circle circle ∈ reports → IsCircle view.Inherits circle
  cyclic : (∃ circle, .circle circle ∈ reports) ↔ ∃ id ∈ ids, Relation.TransGen view.Inherits id id
  missed : (reports.filterMap Report.missing?).Perm
    ((roots.filter view.misses).map (·, referrer) ++
      ids.flatMap fun id => ((view.parents id).filter view.misses).map (·, id))

theorem exists_reported_flatten (view : RulepackView) (referrer : String) (roots : List String) :
    ∃ ids reports, view.Contribute roots ids ∧ view.Reported referrer roots ids reports ∧
      (view.flatten referrer roots).log = reports.map Report.entry := by
  obtain ⟨ids, reports, search⟩ := exists_searches_flatten view referrer roots
  have hvisits := search.visits (by simp)
  have hclosed := search.closed ⟨List.nodup_nil, .nil, by simp, by simp⟩
  refine ⟨ids, reports, hvisits.contribute, ⟨fun circle hcircle => (hclosed circle hcircle).1, ?_,
    search.missed (by simp)⟩, by simpa [start] using search.log_eq⟩
  constructor
  · rintro ⟨circle, hcircle⟩
    obtain ⟨hcloses, hids⟩ := hclosed circle hcircle
    obtain ⟨id, hid, hcycle⟩ := hcloses.exists_transGen
    exact ⟨id, (hids id hid).resolve_left (by simp), hcycle⟩
  · rintro ⟨id, hid, hcycle⟩
    by_contra hnone
    have hdescends := search.descends (fun _ _ h => h) [] (by simp)
      (fun circle hcircle => absurd ⟨circle, hcircle⟩ hnone) (by simp [start]) trivial
    exact hdescends.not_transGen (by simpa using hid) hcycle

end Playbook.RulepackView
