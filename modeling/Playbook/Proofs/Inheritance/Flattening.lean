import Mathlib.Data.List.Nodup
import Mathlib.Data.List.Perm.Subperm
import Mathlib.Logic.Relation
import Playbook.Inheritance.Flattening

/-!
# What flattening gives

Flattening gives the rules of all rulepacks that are reached from the roots
through rulepacks that are let in, each once. A rulepack comes after those
that it extends, unless one of them leads back to it.
-/

namespace Playbook.RulepackView

/-- Known, and let in by its id and by its content. -/
def Admitted (view : RulepackView) (id : String) : Prop :=
  view.admits id = true ∧ ∃ pack, view.lookup id = some pack ∧ view.allows pack = true

def parents (view : RulepackView) (id : String) : List String :=
  ((view.lookup id).map (·.extends)).getD []

def rulesAt (view : RulepackView) (id : String) : List String :=
  ((view.lookup id).map (·.rules)).getD []

/-- The first id extends the second, and both are let in. -/
def Inherits (view : RulepackView) (id parent : String) : Prop :=
  view.Admitted id ∧ parent ∈ view.parents id ∧ view.Admitted parent

abbrev Reaches (view : RulepackView) : String → String → Prop :=
  Relation.ReflTransGen view.Inherits

/--
What a stretch of the search adds: the ids that it leaves for good, in that
order. An id that it leaves stands behind its parents, apart from parents
that the search had met before and parents that lead back to the id.
-/
structure Adds (view : RulepackView) (f g : Flattening) (ids : List String) : Prop where
  rules : g.rules = f.rules ++ ids.flatMap view.rulesAt
  visited : ∀ id, id ∈ g.visited ↔ id ∈ f.visited ∨ id ∈ ids
  nodup : ids.Nodup
  fresh : ∀ id ∈ ids, id ∉ f.visited
  admitted : ∀ id ∈ ids, view.Admitted id
  closed : ∀ id ∈ ids, ∀ parent, view.Inherits id parent → parent ∈ g.visited
  ordered : ∀ id ∈ ids, ∀ parent, view.Inherits id parent → ¬ view.Reaches parent id →
    parent ∈ f.visited ∨ [parent, id].Sublist ids

namespace Adds

variable {view : RulepackView} {f g h : Flattening} {ids more : List String}

theorem refl (view : RulepackView) (f : Flattening) : view.Adds f f [] where
  rules := by simp
  visited := by simp
  nodup := List.nodup_nil
  fresh := by simp
  admitted := by simp
  closed := by simp
  ordered := by simp

theorem tell (view : RulepackView) (f : Flattening) (entry : LogEntry) :
    view.Adds f (f.tell entry) [] :=
  { refl view f with }

theorem trans (first : view.Adds f g ids) (second : view.Adds g h more) :
    view.Adds f h (ids ++ more) where
  rules := by rw [second.rules, first.rules, List.flatMap_append, List.append_assoc]
  visited id := by rw [second.visited, first.visited, List.mem_append, or_assoc]
  nodup := List.nodup_append.2 ⟨first.nodup, second.nodup, fun a ha b hb hab =>
    second.fresh b hb ((first.visited b).2 (.inr (hab ▸ ha)))⟩
  fresh id hid := by
    rcases List.mem_append.1 hid with hid | hid
    · exact first.fresh id hid
    · exact fun hf => second.fresh id hid ((first.visited id).2 (.inl hf))
  admitted id hid := (List.mem_append.1 hid).elim (first.admitted id) (second.admitted id)
  closed id hid parent hparent := by
    rcases List.mem_append.1 hid with hid | hid
    · exact (second.visited parent).2 (.inl (first.closed id hid parent hparent))
    · exact second.closed id hid parent hparent
  ordered id hid parent hparent hback := by
    rcases List.mem_append.1 hid with hid | hid
    · exact (first.ordered id hid parent hparent hback).imp_right
        fun h => h.trans (List.sublist_append_left ids more)
    · rcases second.ordered id hid parent hparent hback with hmet | hsub
      · refine ((first.visited parent).1 hmet).imp_right fun hids => ?_
        exact (List.singleton_sublist.2 hids).append (List.singleton_sublist.2 hid)
      · exact .inr (hsub.trans (List.sublist_append_right ids more))

end Adds

/-- What the search does at one id, and what it does at several in turn. -/
structure Visits (view : RulepackView) (roots : List String) (f g : Flattening)
    (ids : List String) : Prop extends view.Adds f g ids where
  reached : ∀ id ∈ ids, ∃ root ∈ roots, view.Admitted root ∧ view.Reaches root id
  met : ∀ root ∈ roots, view.Admitted root → root ∈ g.visited

variable {view : RulepackView} {referrer : String}

theorem Visits.nil (f : Flattening) : view.Visits [] f f [] :=
  { Adds.refl view f with reached := by simp, met := by simp }

theorem Visits.append {f g h : Flattening} {roots others ids more : List String}
    (first : view.Visits roots f g ids) (second : view.Visits others g h more) :
    view.Visits (roots ++ others) f h (ids ++ more) where
  toAdds := first.toAdds.trans second.toAdds
  reached id hid := by
    rcases List.mem_append.1 hid with hid | hid
    · obtain ⟨root, hroot, hreach⟩ := first.reached id hid
      exact ⟨root, List.mem_append_left others hroot, hreach⟩
    · obtain ⟨root, hroot, hreach⟩ := second.reached id hid
      exact ⟨root, List.mem_append_right roots hroot, hreach⟩
  met root hroot hadmitted := by
    rcases List.mem_append.1 hroot with hroot | hroot
    · exact (second.visited root).2 (.inl (first.met root hroot hadmitted))
    · exact second.met root hroot hadmitted

/-- The way from a root to the id at hand: its ids are different, known and met. -/
structure Way (view : RulepackView) (path : List String) (f : Flattening) : Prop where
  nodup : path.Nodup
  known : ∀ id ∈ path, (view.lookup id).isSome
  met : ∀ id ∈ path, id ∈ f.visited

namespace Way

variable {f g : Flattening} {path ids : List String} {id : String}

theorem length_le (way : view.Way path f) : path.length ≤ view.packs.length := by
  have hsub : path ⊆ view.packs.map (·.1) := by
    intro id hid
    obtain ⟨entry, hmem, heq⟩ := List.lookup_isSome_iff.1 (way.known id hid)
    exact List.mem_map.2 ⟨entry, hmem, (beq_iff_eq.1 heq).symm⟩
  simpa using (List.subperm_of_subset way.nodup hsub).length_le

theorem adds (way : view.Way path f) (h : view.Adds f g ids) : view.Way path g :=
  { way with met := fun id hid => (h.visited id).2 (.inl (way.met id hid)) }

theorem snoc (way : view.Way path f) (hnew : id ∉ path) (hknown : (view.lookup id).isSome) :
    view.Way (path ++ [id]) { f with visited := id :: f.visited } where
  nodup := List.nodup_append.2 ⟨way.nodup, List.nodup_singleton id, by
    rintro a ha b hb rfl
    exact hnew (List.mem_singleton.1 hb ▸ ha)⟩
  known other hother := by
    rcases List.mem_append.1 hother with hother | hother
    · exact way.known other hother
    · rwa [List.mem_singleton.1 hother]
  met other hother := by
    rcases List.mem_append.1 hother with hother | hother
    · exact List.mem_cons_of_mem id (way.met other hother)
    · exact List.mem_cons.2 (.inl (List.mem_singleton.1 hother))

end Way

/--
An id that is entered adds what its parents add and then itself. The
parents were searched from the state in which the id counts as met.
-/
theorem Visits.leave {f below : Flattening} {id : String} {pack : Rulepack} {ids : List String}
    (hlookup : view.lookup id = some pack) (hadmitted : view.Admitted id)
    (hnew : id ∉ f.visited)
    (h : view.Visits pack.extends { f with visited := id :: f.visited } below ids) :
    view.Visits [id] f { below with rules := below.rules ++ pack.rules } (ids ++ [id]) := by
  have hparents : view.parents id = pack.extends := by simp [parents, hlookup]
  have hrules : view.rulesAt id = pack.rules := by simp [rulesAt, hlookup]
  have hvisited (other : String) :
      other ∈ below.visited ↔ other ∈ f.visited ∨ other ∈ ids ++ [id] := by
    rw [h.visited, List.mem_cons, List.mem_append, List.mem_singleton, or_assoc]
    exact ⟨fun h => h.elim (fun h => .inr (.inr h)) (Or.imp_right .inl),
      fun h => h.elim (fun h => .inr (.inl h)) (Or.elim · (fun h => .inr (.inr h)) .inl)⟩
  have hmet {parent : String} (hparent : view.Inherits id parent) : parent ∈ below.visited :=
    h.met parent (hparents ▸ hparent.2.1) hparent.2.2
  have hbelow {other : String} (hother : other ∈ ids) : view.Reaches id other := by
    obtain ⟨root, hroot, hadm, hreach⟩ := h.reached other hother
    exact .head ⟨hadmitted, hparents ▸ hroot, hadm⟩ hreach
  refine { rules := ?_, visited := hvisited, nodup := ?_, fresh := ?_, admitted := ?_,
           closed := ?_, ordered := ?_, reached := ?_, met := ?_ }
  · simp [h.rules, hrules]
  · refine List.nodup_append.2 ⟨h.nodup, List.nodup_singleton id, ?_⟩
    rintro a ha b hb rfl
    exact h.fresh a ha (List.mem_cons.2 (.inl (List.mem_singleton.1 hb)))
  · intro other hother
    rcases List.mem_append.1 hother with hother | hother
    · exact fun hf => h.fresh other hother (List.mem_cons_of_mem id hf)
    · rwa [List.mem_singleton.1 hother]
  · intro other hother
    rcases List.mem_append.1 hother with hother | hother
    · exact h.admitted other hother
    · rwa [List.mem_singleton.1 hother]
  · intro other hother parent hparent
    rcases List.mem_append.1 hother with hother | hother
    · exact h.closed other hother parent hparent
    · obtain rfl := List.mem_singleton.1 hother
      exact hmet hparent
  · intro other hother parent hparent hback
    rcases List.mem_append.1 hother with hother | hother
    · rcases h.ordered other hother parent hparent hback with hfound | hsub
      · rcases List.mem_cons.1 hfound with heq | hfound
        · exact absurd (heq ▸ hbelow hother) hback
        · exact .inl hfound
      · exact .inr (hsub.trans (List.sublist_append_left ids [id]))
    · obtain rfl := List.mem_singleton.1 hother
      rcases (hvisited parent).1 (hmet hparent) with hfound | hfound
      · exact .inl hfound
      · rcases List.mem_append.1 hfound with hfound | hfound
        · exact .inr ((List.singleton_sublist.2 hfound).append (List.Sublist.refl [other]))
        · rw [List.mem_singleton.1 hfound] at hback
          exact absurd .refl hback
  · intro other hother
    refine ⟨id, List.mem_singleton.2 rfl, hadmitted, ?_⟩
    rcases List.mem_append.1 hother with hother | hother
    · exact hbelow hother
    · rw [List.mem_singleton.1 hother]
  · intro root hroot _
    rw [List.mem_singleton.1 hroot]
    exact (hvisited id).2 (.inr (by simp))

/-- An id that is met already, or that is not let in, adds nothing. -/
theorem Visits.skip {f g : Flattening} {id : String} (h : view.Adds f g [])
    (hid : view.Admitted id → id ∈ f.visited) : view.Visits [id] f g [] where
  toAdds := h
  reached := by simp
  met root hroot hadmitted := by
    rw [List.mem_singleton.1 hroot] at hadmitted ⊢
    exact (h.visited id).2 (.inl (hid hadmitted))

/-! ## The search, step by step -/

inductive Report where
  | circle (ids : List String)
  | missing (id referrer : String)

namespace Report

def entry : Report → LogEntry
  | .circle ids => cycleWarning ids
  | .missing id referrer => missingWarning id referrer

/-- The id that is missed and the name under which it was asked for. -/
def missing? : Report → Option (String × String)
  | .circle _ => none
  | .missing id referrer => some (id, referrer)

end Report

/-- Let in by its id, and unknown. -/
def misses (view : RulepackView) (id : String) : Bool := view.admits id && (view.lookup id).isNone

/-- The way back to an id of a path, with the id again at its end. -/
def circleAt (path : List String) (id : String) : List String :=
  path.dropWhile (· != id) ++ [id]

/--
The search below `path` for some ids in turn, from one state to another: the
ids that it leaves for good, in their order, and its reports.
-/
inductive Searches (view : RulepackView) (referrer : String) :
    List String → List String → Flattening → Flattening → List String → List Report → Prop
  | done {path : List String} {f : Flattening} : Searches view referrer path [] f f [] []
  | circle {path roots ids : List String} {reports : List Report} {id : String}
      {f g : Flattening} (hpath : id ∈ path)
      (rest : Searches view referrer path roots (f.tell (cycleWarning (circleAt path id))) g ids
        reports) :
      Searches view referrer path (id :: roots) f g ids (.circle (circleAt path id) :: reports)
  | missing {path roots ids : List String} {reports : List Report} {id : String}
      {f g : Flattening} (hmisses : view.misses id = true)
      (rest : Searches view referrer path roots
        (f.tell (missingWarning id (path.getLast?.getD referrer))) g ids reports) :
      Searches view referrer path (id :: roots) f g ids
        (.missing id (path.getLast?.getD referrer) :: reports)
  | skip {path roots ids : List String} {reports : List Report} {id : String}
      {f g : Flattening} (hpath : id ∉ path) (hmisses : view.misses id = false)
      (hmet : view.Admitted id → id ∈ f.visited)
      (rest : Searches view referrer path roots f g ids reports) :
      Searches view referrer path (id :: roots) f g ids reports
  | enter {path roots below ids : List String} {reports others : List Report} {id : String}
      {pack : Rulepack} {f mid g : Flattening} (hpath : id ∉ path)
      (hadmitted : view.Admitted id) (hlookup : view.lookup id = some pack)
      (hnew : id ∉ f.visited)
      (search : Searches view referrer (path ++ [id]) pack.extends
        { f with visited := id :: f.visited } mid below reports)
      (rest : Searches view referrer path roots
        { mid with rules := mid.rules ++ pack.rules } g ids others) :
      Searches view referrer path (id :: roots) f g (below ++ id :: ids) (reports ++ others)

variable {path roots others ids more : List String} {f g h : Flattening}
variable {reports later : List Report}

namespace Searches

theorem append (first : Searches view referrer path roots f g ids reports)
    (second : Searches view referrer path others g h more later) :
    Searches view referrer path (roots ++ others) f h (ids ++ more) (reports ++ later) := by
  induction first with
  | done => exact second
  | circle hpath _ ih => exact .circle hpath (ih second)
  | missing hmisses _ ih => exact .missing hmisses (ih second)
  | skip hpath hmisses hmet _ ih => exact .skip hpath hmisses hmet (ih second)
  | enter hpath hadmitted hlookup hnew search _ _ ih =>
      rw [List.append_assoc, List.append_assoc, List.cons_append, List.cons_append]
      exact .enter hpath hadmitted hlookup hnew search (ih second)

/-- What the steps leave and what they do is what the search visits. -/
theorem visits (search : Searches view referrer path roots f g ids reports)
    (hmet : ∀ id ∈ path, id ∈ f.visited) : view.Visits roots f g ids := by
  induction search with
  | done => exact .nil _
  | circle hpath _ ih =>
      exact (Visits.skip (.tell view _ _) fun _ => hmet _ hpath).append (ih hmet)
  | missing hmisses _ ih =>
      refine (Visits.skip (.tell view _ _) ?_).append (ih hmet)
      rintro ⟨-, pack, hlookup, -⟩
      simp [misses, hlookup] at hmisses
  | skip _ _ hvisited _ ih => exact (Visits.skip (.refl view _) hvisited).append (ih hmet)
  | @enter path _ _ _ _ _ id _ f _ _ _ hadmitted hlookup hnew _ _ ihbelow ih =>
      have hbelow := ihbelow fun other hother => by
        rcases List.mem_append.1 hother with hother | hother
        · exact List.mem_cons_of_mem id (hmet other hother)
        · exact List.mem_cons.2 (.inl (List.mem_singleton.1 hother))
      have hleft := Visits.leave hlookup hadmitted hnew hbelow
      simpa using hleft.append
        (ih fun other hother => (hleft.visited other).2 (.inl (hmet other hother)))

theorem log_eq (search : Searches view referrer path roots f g ids reports) :
    g.log = f.log ++ reports.map Report.entry := by
  induction search with
  | done => simp
  | circle _ _ ih => simp [ih, Flattening.tell, Report.entry]
  | missing _ _ ih => simp [ih, Flattening.tell, Report.entry]
  | skip _ _ _ _ ih => exact ih
  | enter _ _ _ _ _ _ ihbelow ih => simp [ih, ihbelow]

end Searches

/-- The way to an id, from a state in which only ids that are let in count as met. -/
structure Route (view : RulepackView) (path : List String) (f : Flattening) : Prop extends
    view.Way path f where
  admitted : ∀ id ∈ f.visited, view.Admitted id

theorem Route.visits (route : view.Route path f) (h : view.Visits roots f g ids) :
    view.Route path g where
  toWay := route.toWay.adds h.toAdds
  admitted id hid := ((h.visited id).1 hid).elim (route.admitted id) (h.admitted id)

/-- Steps that each search one root make a search for all of them. -/
theorem exists_searches_foldl {step : Flattening → String → Flattening}
    (hstep : ∀ f id, view.Route path f →
      ∃ ids reports, Searches view referrer path [id] f (step f id) ids reports)
    (roots : List String) (f : Flattening) (route : view.Route path f) :
    ∃ ids reports, Searches view referrer path roots f (roots.foldl step f) ids reports := by
  induction roots generalizing f with
  | nil => exact ⟨[], [], .done⟩
  | cons root roots ih =>
      obtain ⟨ids, reports, hfirst⟩ := hstep f root route
      obtain ⟨more, later, hrest⟩ := ih _ (route.visits (hfirst.visits route.met))
      exact ⟨ids ++ more, reports ++ later, hfirst.append hrest⟩

/-- One step of the search, case by case; the bound on the fuel says that the way leaves room. -/
theorem exists_searches_expand (fuel : Nat) (path : List String) (f : Flattening) (id : String)
    (hfuel : view.packs.length < fuel + path.length) (route : view.Route path f) :
    ∃ ids reports,
      Searches view referrer path [id] f (view.expand referrer fuel path f id) ids reports := by
  induction fuel generalizing path f id with
  | zero =>
      have := route.length_le
      omega
  | succ fuel ih =>
      rw [expand]
      by_cases hpath : id ∈ path
      · rw [if_pos (List.contains_iff_mem.2 hpath)]
        exact ⟨[], _, .circle hpath .done⟩
      rw [if_neg (mt List.contains_iff_mem.1 hpath)]
      by_cases hvisited : id ∈ f.visited
      · rw [if_pos (List.contains_iff_mem.2 hvisited)]
        obtain ⟨-, pack, hlookup, -⟩ := route.admitted id hvisited
        exact ⟨[], [], .skip hpath (by simp [misses, hlookup]) (fun _ => hvisited) .done⟩
      rw [if_neg (mt List.contains_iff_mem.1 hvisited)]
      cases hadmits : view.admits id with
      | false =>
          exact ⟨[], [], .skip hpath (by simp [misses, hadmits])
            (fun h => by simp [h.1] at hadmits) .done⟩
      | true =>
          rw [Bool.not_true, if_neg Bool.false_ne_true]
          cases hlookup : view.lookup id with
          | none => exact ⟨[], _, .missing (by simp [misses, hadmits, hlookup]) .done⟩
          | some pack =>
              dsimp only
              cases hallows : view.allows pack with
              | false =>
                  refine ⟨[], [], .skip hpath (by simp [misses, hlookup]) ?_ .done⟩
                  rintro ⟨-, other, hother, hlets⟩
                  obtain rfl : pack = other := by simpa [hlookup] using hother
                  simp [hlets] at hallows
              | true =>
                  rw [Bool.not_true, if_neg Bool.false_ne_true]
                  have hadmitted : view.Admitted id := ⟨hadmits, pack, hlookup, hallows⟩
                  have hbelow : view.Route (path ++ [id]) { f with visited := id :: f.visited } :=
                    ⟨route.toWay.snoc hpath (by simp [hlookup]),
                      List.forall_mem_cons.2 ⟨hadmitted, route.admitted⟩⟩
                  obtain ⟨ids, reports, hsearch⟩ := exists_searches_foldl
                    (fun g parent hg => ih (path ++ [id]) g parent
                      (by rw [List.length_append, List.length_singleton]; omega) hg)
                    pack.extends _ hbelow
                  exact ⟨_, _, .enter hpath hadmitted hlookup hvisited hsearch .done⟩

theorem Route.start (view : RulepackView) : view.Route [] RulepackView.start :=
  ⟨⟨List.nodup_nil, by simp, by simp⟩, by simp [RulepackView.start]⟩

/-- The search for some roots, one after the other. -/
theorem exists_searches_roots (referrer : String) (roots : List String)
    (route : view.Route [] f) :
    ∃ ids reports, Searches view referrer [] roots f
      (roots.foldl (view.expand referrer (view.packs.length + 1) []) f) ids reports :=
  exists_searches_foldl (fun f id route => exists_searches_expand _ [] f id (by simp) route)
    roots f route

theorem exists_searches_flatten (view : RulepackView) (referrer : String) (roots : List String) :
    ∃ ids reports,
      Searches view referrer [] roots start (view.flatten referrer roots) ids reports :=
  exists_searches_roots referrer roots (Route.start view)

/-! ## The ids that contribute -/

/--
The ids whose rules are given for some roots, in order: those that are
reached, each once, and parents first where they do not lead back.
-/
structure Contribute (view : RulepackView) (roots ids : List String) : Prop where
  nodup : ids.Nodup
  mem_iff : ∀ id, id ∈ ids ↔ ∃ root ∈ roots, view.Admitted root ∧ view.Reaches root id
  parents_first : ∀ id ∈ ids, ∀ parent ∈ ids, parent ∈ view.parents id →
    ¬ view.Reaches parent id → [parent, id].Sublist ids

theorem Visits.contribute {roots ids : List String} {g : Flattening}
    (h : view.Visits roots start g ids) : view.Contribute roots ids where
  nodup := h.nodup
  mem_iff id := by
    have hvisited (other : String) : other ∈ g.visited ↔ other ∈ ids := by
      simp [h.visited, start]
    refine ⟨h.reached id, ?_⟩
    rintro ⟨root, hroot, hadmitted, hreach⟩
    induction hreach with
    | refl => exact (hvisited root).1 (h.met root hroot hadmitted)
    | tail _ hstep ih => exact (hvisited _).1 (h.closed _ ih _ hstep)
  parents_first id hid parent hparent hextends hback := by
    have hinherits : view.Inherits id parent :=
      ⟨h.admitted id hid, hextends, h.admitted parent hparent⟩
    rcases h.ordered id hid parent hinherits hback with hstart | hsub
    · simp [start] at hstart
    · exact hsub

theorem exists_contribute_flatten (view : RulepackView) (referrer : String)
    (roots : List String) :
    ∃ ids, view.Contribute roots ids ∧
      (view.flatten referrer roots).rules = ids.flatMap view.rulesAt := by
  obtain ⟨ids, _, search⟩ := exists_searches_flatten view referrer roots
  have hids := search.visits (by simp)
  exact ⟨ids, hids.contribute, by simpa [start] using hids.rules⟩

/-- Roots that are kept out by their ids leave no trace. -/
theorem flatten_of_not_admits {view : RulepackView} {referrer : String} {roots : List String}
    (h : ∀ root ∈ roots, view.admits root = false) : view.flatten referrer roots = start := by
  rw [flatten]
  induction roots with
  | nil => rfl
  | cons root roots ih =>
      have hroot : view.expand referrer (view.packs.length + 1) [] start root = start := by
        simp [expand, start, h root (List.mem_cons_self ..)]
      rw [List.foldl_cons, hroot]
      exact ih fun other hother => h other (List.mem_cons_of_mem root hother)

theorem rules_flatten_append (view : RulepackView) (referrer : String)
    (roots more : List String) :
    (view.flatten referrer roots).rules <+: (view.flatten referrer (roots ++ more)).rules := by
  obtain ⟨_, _, first⟩ := exists_searches_flatten view referrer roots
  have route := (Route.start view).visits (first.visits (by simp))
  obtain ⟨ids, _, second⟩ := exists_searches_roots referrer more route
  have hrules := (second.visits (by simp)).rules
  rw [flatten, flatten, List.foldl_append]
  exact ⟨ids.flatMap view.rulesAt, hrules.symm⟩

end Playbook.RulepackView
