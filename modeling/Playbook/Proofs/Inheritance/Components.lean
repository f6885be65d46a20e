import Mathlib.Data.String.Basic
import Playbook.Proofs.Inheritance.Cycles

/-!
# Components with cycles

What a graph lists as its cycles are closed ways from their least ids on, each
listed once, and every component in which something leads back to itself has
one of them. The search for them comes to an end, and to one end only.
-/

namespace Playbook

variable {α : Type} {r : α → α → Prop} {a b : α} {l : List α}

/-! ## Components -/

/-- Each of the two leads to the other. -/
def Linked (r : α → α → Prop) (a b : α) : Prop :=
  Relation.ReflTransGen r a b ∧ Relation.ReflTransGen r b a

namespace Linked

variable {c : α}

theorem refl (a : α) : Linked r a a := ⟨.refl, .refl⟩

theorem trans (h : Linked r a b) (h' : Linked r b c) : Linked r a c :=
  ⟨h.1.trans h'.1, h'.2.trans h.2⟩

end Linked

/-- All members of a circle are in one component. -/
theorem IsCircle.linked (h : IsCircle r l) (ha : a ∈ l) (hb : b ∈ l) : Linked r a b := by
  have hends : ∃ c, ∀ d ∈ l, Relation.ReflTransGen r c d ∧ Relation.ReflTransGen r d c := by
    obtain ⟨way, c, rfl, hhead, -, hchain⟩ := h
    have hfirst : (way ++ [c]).head? = some c := by rw [List.head?_append, hhead]; rfl
    refine ⟨c, fun d hd => ⟨?_, ?_⟩⟩
    · refine hchain.induction (Relation.ReflTransGen r c) _ (fun _ _ hstep hway => hway.tail hstep)
        (fun _ => ?_) d hd
      rw [List.head_of_mem_head? hfirst]
    · refine hchain.backwards_induction (Relation.ReflTransGen r · c) _
        (fun _ _ hstep hway => hway.head hstep) (fun _ => ?_) d hd
      rw [List.getLast_concat]
  obtain ⟨c, hc⟩ := hends
  exact ⟨(hc a ha).2.trans (hc b hb).1, (hc b hb).2.trans (hc a ha).1⟩

/-- What leads back to itself does so inside of its component. -/
theorem transGen_inside (h : Relation.TransGen r a b) (hback : Relation.ReflTransGen r b a) :
    Relation.TransGen (fun x y => r x y ∧ Linked r a x ∧ Linked r a y) a b := by
  induction h with
  | single hstep => exact .single ⟨hstep, .refl a, .single hstep, hback⟩
  | tail hway hstep ih =>
      have hrest := hback.head hstep
      exact (ih hrest).tail ⟨hstep, ⟨hway.to_reflTransGen, hrest⟩,
        hway.to_reflTransGen.tail hstep, hback⟩

namespace Graph

open RulepackView

/-! ## The search as it goes -/

/--
How a search goes on below a way through some ids in turn. Nothing bounds it:
an id is entered whenever it is known, has not been left and is not on the way.
-/
inductive Explores (graph : Graph) : List String → Search → List String → Search → Prop
  | done {path : List String} {s : Search} : Explores graph path s [] s
  | circle {path ids : List String} {s t : Search} {id : String} : id ∈ path →
      Explores graph path (s.add (rotate (path.dropWhile (· != id)))) ids t →
      Explores graph path s (id :: ids) t
  | skip {path ids : List String} {s t : Search} {id : String} : id ∉ path →
      id ∈ s.done ∨ graph.knows id = false →
      Explores graph path s ids t → Explores graph path s (id :: ids) t
  | enter {path ids : List String} {s below t : Search} {id : String} : id ∉ path →
      id ∉ s.done → graph.knows id = true →
      Explores graph (path ++ [id]) s (graph.parents id) below →
      Explores graph path { below with done := id :: below.done } ids t →
      Explores graph path s (id :: ids) t

variable {graph : Graph} {path ids circle cycle : List String} {s t : Search} {id : String}

theorem explores_visit {fuel : Nat} (hfuel : graph.length < fuel + path.length)
    (hnodup : path.Nodup) (hknown : ∀ id ∈ path, graph.knows id = true) (s : Search)
    (ids : List String) :
    graph.Explores path s ids (ids.foldl (visit graph fuel path) s) := by
  induction fuel generalizing path s ids with
  | zero =>
      have hlength := length_le_of_known hnodup hknown
      omega
  | succ fuel ih =>
      induction ids generalizing s with
      | nil => exact .done
      | cons id ids ihids =>
          rw [List.foldl_cons]
          by_cases hpath : id ∈ path
          · rw [visit_of_mem_path hpath]
            exact .circle hpath (ihids _)
          by_cases hmet : id ∈ s.done ∨ graph.knows id = false
          · rw [visit_of_done hpath hmet]
            exact .skip hpath hmet (ihids s)
          obtain ⟨hnew, hid⟩ := not_or.1 hmet
          rw [Bool.not_eq_false] at hid
          rw [visit_of_new hpath hnew hid]
          have hbelow := @ih (path ++ [id])
            (by rw [List.length_append, List.length_singleton]; omega)
            (hnodup.append (List.nodup_singleton id) (by simpa using hpath))
            (by simpa [or_imp, forall_and, hid] using hknown) s (graph.parents id)
          exact .enter hpath hnew hid hbelow (ihids _)

theorem explores_search (graph : Graph) :
    graph.Explores [] ⟨[], []⟩ graph.inOrder graph.search :=
  explores_visit (by simp) List.nodup_nil (by simp) _ _

namespace Explores

theorem unique (h : graph.Explores path s ids t) {t' : Search}
    (h' : graph.Explores path s ids t') : t = t' := by
  induction h generalizing t' with
  | done =>
      cases h'
      rfl
  | circle hpath _ ih =>
      cases h' with
      | circle _ hrest => exact ih hrest
      | skip hnot => exact absurd hpath hnot
      | enter hnot => exact absurd hpath hnot
  | skip hpath hmet _ ih =>
      cases h' with
      | circle hnot => exact absurd hnot hpath
      | skip _ _ hrest => exact ih hrest
      | enter _ hnew hknown =>
          rcases hmet with hmet | hmet
          · exact absurd hmet hnew
          · cases hknown.symm.trans hmet
  | enter hpath hnew hknown _ _ ihbelow ih =>
      cases h' with
      | circle hnot => exact absurd hnot hpath
      | skip _ hmet =>
          rcases hmet with hmet | hmet
          · exact absurd hmet hnew
          · cases hknown.symm.trans hmet
      | enter _ _ _ hbelow hrest =>
          obtain rfl := ihbelow hbelow
          exact ih hrest

/-- No circle is found twice. -/
theorem nodup_found (h : graph.Explores path s ids t) (hs : s.found.Nodup) : t.found.Nodup := by
  induction h with
  | done => exact hs
  | circle _ _ ih =>
      apply ih
      rw [Search.add]
      split
      · exact hs
      · rename_i hnew
        exact hs.append (List.nodup_singleton _) (by simpa using hnew)
  | skip _ _ _ ih => exact ih hs
  | enter _ _ _ _ _ ihbelow ih => exact ih (ihbelow hs)

end Explores

/-! ## Least ids -/

theorem least_of_cons (id : String) (rest : List String) :
    ∃ first, least (id :: rest) = some first ∧ first ∈ id :: rest ∧
      ∀ other ∈ id :: rest, first ≤ other := by
  induction rest generalizing id with
  | nil => exact ⟨id, rfl, List.mem_cons_self, by simp⟩
  | cons next rest ih =>
      obtain ⟨first, hfirst, hmem, hle⟩ := ih next
      rw [least, hfirst]
      by_cases hless : first < id
      · refine ⟨first, if_pos hless, List.mem_cons_of_mem _ hmem, ?_⟩
        exact List.forall_mem_cons.2 ⟨le_of_lt hless, hle⟩
      · refine ⟨id, if_neg hless, List.mem_cons_self, ?_⟩
        have hid := not_lt.1 hless
        exact List.forall_mem_cons.2 ⟨le_refl id, fun other hother => hid.trans (hle other hother)⟩

/-- A circle that is turned has its least id at its head. -/
theorem head?_rotate (hcircle : circle ≠ []) :
    ∃ first, (rotate circle).head? = some first ∧ ∀ id ∈ circle, first ≤ id := by
  obtain ⟨id, rest, rfl⟩ := List.exists_cons_of_ne_nil hcircle
  obtain ⟨first, hfirst, hmem, hle⟩ := least_of_cons id rest
  refine ⟨first, ?_, hle⟩
  obtain ⟨before, behind, heq, hbefore⟩ := List.eq_append_cons_of_mem hmem
  have hdropped : ∀ other ∈ before, (other != first) = true := fun other hother => by
    simpa using ne_of_mem_of_not_mem hother hbefore
  rw [rotate, hfirst]
  dsimp only
  rw [heq, List.dropWhile_append_of_pos hdropped, List.dropWhile_cons_of_neg (by simp)]
  rfl

theorem dropLast_close (circle : List String) : (close circle).dropLast = circle := by
  cases circle with
  | nil => rfl
  | cons first rest => exact List.dropLast_concat

/-! ## Cycles that are listed -/

/-- The first id lists the second, which need not be known. -/
def Lists (graph : Graph) (id parent : String) : Prop := parent ∈ graph.parents id

theorem Extends.lists {parent : String} (h : graph.Extends id parent) : graph.Lists id parent := h.1

theorem knows_of_lists {parent : String} (h : graph.Lists id parent) : graph.knows id = true := by
  -- An id that is unknown lists nothing.
  cases hlookup : graph.lookup id with
  | none => simp [Lists, parents, hlookup] at h
  | some parents => rw [knows, hlookup]; rfl

theorem nodup_cycles (graph : Graph) : graph.cycles.Nodup :=
  ((explores_search graph).nodup_found List.nodup_nil).map
    (Function.LeftInverse.injective dropLast_close)

theorem isCircle_lists (h : cycle ∈ graph.cycles) : IsCircle graph.Lists cycle := by
  obtain ⟨way, first, heq, hhead, hnodup, hchain⟩ := isCircle_of_mem_cycles h
  exact ⟨way, first, heq, hhead, hnodup, hchain.imp fun _ _ => Extends.lists⟩

/-- A cycle begins at its least id. -/
theorem head_le_of_mem_cycles (h : cycle ∈ graph.cycles) :
    ∃ first, cycle.head? = some first ∧ ∀ id ∈ cycle, first ≤ id := by
  obtain ⟨ids, reports, searched⟩ := exists_searched graph
  obtain ⟨own, hown, rfl⟩ := (searched.listed cycle).1 h
  obtain ⟨way, a, -, hhead, hway⟩ := (searched.closed own hown).closed
  have hfilled : own.dropLast ≠ [] := by
    rw [hway]
    rintro rfl
    cases hhead
  obtain ⟨first, hfirst, hle⟩ := head?_rotate hfilled
  refine ⟨first, by rw [cycleOf, close, List.head?_append, hfirst]; rfl, fun id hid => ?_⟩
  have hmem : id ∈ rotate own.dropLast := by
    rw [cycleOf, close, hfirst] at hid
    rcases List.mem_append.1 hid with hid | hid
    · exact hid
    · rw [List.mem_singleton.1 hid]
      exact List.mem_of_head? hfirst
  exact hle id ((rotate_isRotated own.dropLast).mem_iff.2 hmem)

/-- Where an id leads back to itself, a cycle of its component is listed. -/
theorem exists_cycle_linked (h : Relation.TransGen graph.Lists id id) :
    ∃ cycle ∈ graph.cycles, ∀ other ∈ cycle, Linked graph.Lists id other := by
  obtain ⟨ids, reports, searched⟩ := exists_searched graph
  by_contra! hnone
  let inside (x y : String) : Prop :=
    graph.Lists x y ∧ Linked graph.Lists id x ∧ Linked graph.Lists id y
  -- What is in the component goes on along the way back, so that it is known.
  have hknown {other : String} (hlinked : Linked graph.Lists id other) :
      graph.knows other = true := by
    have hleads : Relation.TransGen graph.Lists other other :=
      (h.trans_right hlinked.2).trans_left hlinked.1
    obtain ⟨next, hnext, -⟩ := Relation.TransGen.head'_iff.1 hleads
    exact knows_of_lists hnext
  have hfree : ∀ own, .circle own ∈ reports → ∀ step ∈ steps own, ¬ inside step.1 step.2 := by
    rintro own hown ⟨x, y⟩ hstep ⟨-, hx, -⟩
    obtain ⟨hcircle, hsame⟩ := isCircle_cycleOf (searched.closed own hown)
    have hlisted := (searched.listed _).2 ⟨own, hown, rfl⟩
    obtain ⟨other, hother, hapart⟩ := hnone _ hlisted
    have hmem := (searched.closed own hown).mem_steps_iff hcircle hsame |>.1 hstep
    exact hapart (hx.trans ((isCircle_lists hlisted).linked (List.of_mem_zip hmem).1 hother))
  have hdescends := searched.descends inside
    (fun x y hstep => ⟨hstep.1, hknown hstep.2.2⟩) hfree
  have hleft := searched.left id (hknown (.refl id))
  exact hdescends.not_transGen (List.mem_reverse.2 hleft) (transGen_inside h .refl)

/--
What a graph lists as its cycles. The search for them goes in one way only;
they are circles that begin at their least ids, no two of them are the same,
and each component in which an id leads back to itself has one.
-/
structure ListsCycles (graph : Graph) (found : Search) (cycles : List (List String)) : Prop where
  ends : ∀ t, graph.Explores [] ⟨[], []⟩ graph.inOrder t ↔ t = found
  listed : cycles = found.found.map close
  circles : ∀ cycle ∈ cycles, IsCircle graph.Lists cycle
  first_le : ∀ cycle ∈ cycles, ∃ first, cycle.head? = some first ∧ ∀ id ∈ cycle, first ≤ id
  nodup : cycles.Nodup
  components : ∀ id, Relation.TransGen graph.Lists id id →
    ∃ cycle ∈ cycles, ∀ other ∈ cycle, Linked graph.Lists id other
  none_iff : cycles = [] ↔ ∀ id, ¬ Relation.TransGen graph.Lists id id

theorem listsCycles (graph : Graph) : graph.ListsCycles graph.search graph.cycles where
  ends t := ⟨fun h => h.unique (explores_search graph), fun h => h ▸ explores_search graph⟩
  listed := rfl
  circles _ := isCircle_lists
  first_le _ := head_le_of_mem_cycles
  nodup := graph.nodup_cycles
  components _ := exists_cycle_linked
  none_iff := by
    constructor
    · intro hnone id hcycle
      obtain ⟨cycle, hmem, -⟩ := exists_cycle_linked hcycle
      rw [hnone] at hmem
      cases hmem
    · intro hacyclic
      refine List.eq_nil_iff_forall_not_mem.2 fun cycle hmem => ?_
      obtain ⟨id, -, hcycle⟩ := (isCircle_lists hmem).exists_transGen
      exact hacyclic id hcycle

end Graph

end Playbook
