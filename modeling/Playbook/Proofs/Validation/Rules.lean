import Playbook.Generation
import Playbook.Proofs.Inheritance.Cycles
import Playbook.Proofs.Messages
import Playbook.Proofs.Resolution.Rules
import Playbook.Proofs.Store.Loading

/-!
# Rules from a repository that was checked

Every rulepack that an agent or another rulepack names is there, so that
resolving the rules of an agent reports nothing but cycles and the lists of its
project that are in conflict. If the check has warned of nothing then there are
no cycles.
-/

namespace Playbook

open Validation (Document Documents Inherits Checked parentsOf textMembers membersOf)
open Collection (Holds)

/-! ## Shelves -/

/-- A shelf that gives the items without a message. -/
def Shelf.Silent {α : Type} (shelf : Shelf α) (items : List (Value × α)) : Prop :=
  shelf = .ready items ∨ shelf = .unread [] (.ok items)

theorem Shelf.Silent.exec_items {α : Type} {shelf : Shelf α} {items : List (Value × α)}
    (h : shelf.Silent items) (log : Log) :
    Work.exec (Shelf.items (α := α)) (shelf, log) = (.ok items, .ready items, log) := by
  rcases h with rfl | rfl
  · rfl
  · change (_, _, log ++ []) = _
    rw [List.append_nil]

/-- The manifests of a collection by their ids. -/
def Collection.byId {α : Type} (items : Items α) : List (Value × α) :=
  items.map fun item => (item.1, item.2.2)

namespace Store

variable {store : Store}

theorem Kind.Stands.rulepackShelf {packs : Collection.Items Rulepack}
    (h : Kind.rulepacks.Stands store packs) :
    store.rulepackShelf.Silent (Collection.byId packs) := by
  rw [Store.rulepackShelf]
  rcases h with hheld | ⟨hnone, hreading⟩
  · have hpacks : store.rulepacks = some packs := hheld
    rw [hpacks]
    exact .inl rfl
  · have hpacks : store.rulepacks = none := hnone
    have hread : store.readRulepacks = ([], .ok packs) := hreading
    rw [hpacks, hread]
    exact .inr rfl

theorem Kind.Stands.agentShelf {agents : Collection.Items Agent}
    (h : Kind.agents.Stands store agents) :
    store.agentShelf.Silent (Collection.byId agents) := by
  rw [Store.agentShelf]
  rcases h with hheld | ⟨hnone, hreading⟩
  · have hagents : store.agents = some agents := hheld
    rw [hagents]
    exact .inl rfl
  · have hagents : store.agents = none := hnone
    have hread : store.readAgents = ([], .ok agents) := hreading
    rw [hagents, hread]
    exact .inr rfl

end Store

/-! ## The graph of a check -/

theorem textMembers_map (names : List String) : textMembers (names.map .text) = names := by
  induction names with
  | nil => rfl
  | cons name names ih => exact congrArg (name :: ·) ih

/-- The rulepacks that were read inherit as the graph of the check says. -/
theorem Validation.Inherits.graph_eq {documents : Documents} {graph : Graph}
    {packs : Collection.Items Rulepack} (h : Inherits documents graph)
    (hholds : List.Forall₂ (Holds Rulepack.Reads) documents packs) :
    ((Resolver.byText (Collection.byId packs)).map fun entry => (entry.1, entry.2.extends)) =
      graph := by
  have hnodes : List.Forall₂ (fun entry node => node.1 = entry.1 ∧
      parentsOf entry.2.value = .ok node.2) documents graph :=
    h.imp fun _ _ hnode => ⟨hnode.1, hnode.2.1⟩
  clear h
  induction hnodes generalizing packs with
  | nil =>
      cases hholds
      rfl
  | @cons entry node documents graph hnode _ ih =>
      cases hholds with
      | @cons _ item _ packs hitem hrest =>
          have hparents : item.2.2.extends = node.2 := by
            have hread := hnode.2
            rw [parentsOf, hitem.reads.parents] at hread
            rw [← textMembers_map item.2.2.extends]
            exact Except.ok.inj hread
          rw [Collection.byId, List.map_cons, hitem.key]
          change (entry.1, item.2.2.extends) :: _ = _
          rw [← hnode.1, hparents]
          exact congrArg (node :: ·) (ih hrest)

theorem Validation.Inherits.keys {documents : Documents} {graph : Graph}
    (h : Inherits documents graph) : graph.map (·.1) = documents.map (·.1) := by
  have hkeys : List.Forall₂ (fun entry node => node.1 = entry.1) documents graph :=
    h.imp fun _ _ hnode => hnode.1
  clear h
  induction hkeys with
  | nil => rfl
  | cons hnode _ ih => rw [List.map_cons, List.map_cons, hnode, ih]

theorem Validation.Inherits.knows_iff {documents : Documents} {graph : Graph}
    (h : Inherits documents graph) (id : String) :
    graph.knows id = true ↔ knows documents id = true := by
  have hnone : graph.lookup id = none ↔ documents.lookup id = none := by
    rw [lookup_eq_none_iff, lookup_eq_none_iff, h.keys]
  rw [Graph.knows, knows, Option.isSome_iff_ne_none, Option.isSome_iff_ne_none, Ne, hnone]

/-- Whoever is extended in the graph is known. -/
theorem Validation.Inherits.extends_of_mem {documents : Documents} {graph : Graph}
    (h : Inherits documents graph) {id parent : String} (hparent : parent ∈ graph.parents id) :
    graph.Extends id parent := by
  refine ⟨hparent, (h.knows_iff parent).2 ?_⟩
  cases hlookup : graph.lookup id with
  | none =>
      rw [Graph.parents, hlookup] at hparent
      cases hparent
  | some parents =>
      rw [Graph.parents, hlookup, Option.getD_some] at hparent
      obtain ⟨before, after, hgraph, -⟩ := List.lookup_eq_some_iff.1 hlookup
      obtain ⟨entry, -, -, -, hall⟩ := exists_left_of_mem h
        (show (id, parents) ∈ graph by rw [hgraph]; simp)
      exact hall parent hparent

/-! ## Resolving -/

section

variable {strict : Prop} {store : Store} {c : Validation.Check}
  {packs : Collection.Items Rulepack}

/-- A report on inheritance, which a strict check rules out. -/
def OnlyCycle (strict : Prop) (entry : LogEntry) : Prop :=
  (∃ circle, entry = RulepackView.cycleWarning circle) ∧ ¬ strict

theorem onlyCycle_of_flatten (checked : Checked strict c)
    (loads : Store.Loads store c .rulepacks packs) {roots : List String}
    (hroots : ∀ root ∈ roots, Validation.Known (c.documents .rulepack) (.text root))
    (project : Option Project) (languages : List String) (referrer : String) :
    ∀ entry ∈
      ((Resolver.view (Collection.byId packs) project languages).flatten referrer roots).log,
      OnlyCycle strict entry := by
  obtain ⟨graph, hgraph, hcycles⟩ := checked.rulepacks
  have hlookup (id : String) : graph.lookup id =
      ((Resolver.view (Collection.byId packs) project languages).lookup id).map (·.extends) := by
    rw [← hgraph.graph_eq loads.holds, lookup_map_snd]
    rfl
  have hknown {id : String} (h : graph.knows id = true) :
      ((Resolver.view (Collection.byId packs) project languages).lookup id).isSome := by
    rw [Graph.knows, hlookup] at h
    simpa using h
  have hextends {id parent : String}
      (h : (Resolver.view (Collection.byId packs) project languages).Extends id parent) :
      graph.Extends id parent := by
    refine hgraph.extends_of_mem ?_
    rw [Graph.parents, hlookup]
    exact h
  have hroot {root : String} (h : root ∈ roots) : graph.knows root = true := by
    have hmem := List.contains_iff_mem.1 (hroots root h)
    rw [← hgraph.keys] at hmem
    obtain ⟨node, hnode, rfl⟩ := List.mem_map.1 hmem
    exact Graph.knows_of_mem hnode
  intro entry hentry
  obtain ⟨circle, id, rfl, hcycle⟩ := RulepackView.cycle_of_mem_log_flatten
    (fun root h => hknown (hroot h)) (fun id parent h => hknown (hextends h).2) hentry
  refine ⟨⟨circle, rfl⟩, fun hstrict => ?_⟩
  refine Graph.acyclic_of_cycles (fun cycle hmem => ?_) id
    (Relation.TransGen.mono (fun _ _ h => hextends h) id id hcycle)
  rw [← Bool.not_eq_true, hgraph.knows_iff, Validation.knows, hcycles hstrict cycle hmem]
  exact Bool.false_ne_true

/-- The rulepacks of an agent are all there. -/
theorem known_of_agent {agents : Collection.Items Agent} (checked : Checked strict c)
    (loads : Store.Loads store c .agents agents) {item : Value × Path × Agent}
    (hitem : item ∈ agents) :
    ∀ root ∈ item.2.2.rulepacks, Validation.Known (c.documents .rulepack) (.text root) := by
  obtain ⟨entry, hentry, hholds⟩ := loads.exists_document hitem
  obtain ⟨refs, hrefs, hall⟩ := checked.agents entry hentry
  have hreads : Agent.Reads entry.2.value item.2.2 := hholds.reads
  have heq : item.2.2.rulepacks.map .text = refs :=
    Except.ok.inj (hreads.rulepacks.symm.trans hrefs)
  intro root hroot
  exact hall _ (heq ▸ List.mem_map_of_mem hroot)

/-- What resolving the rules of an agent may report: cycles, and lists in conflict. -/
def RulesReport (strict : Prop) (project : Option Project) (entry : LogEntry) : Prop :=
  OnlyCycle strict entry ∨
    ∃ p ∈ project, entry = ⟨.error, Admissions.conflictMessage p.id .rulepacks⟩

open Work in
theorem Admissions.writes_lists (strict : Prop) (project : Option Project) :
    Writes (RulesReport strict project) (fun _ => True) (fun _ => True)
      (fun found => found = listsOf project .rulepacks) (lists project .rulepacks) := by
  unfold lists
  cases project with
  | none => exact Writes.pure rfl
  | some p =>
      refine Writes.stopped ?_ (Writes.pure rfl)
      unfold reportConflict
      refine Writes.stopped (Writes.throw _) (Writes.state.bind fun admissions _ => ?_)
      refine Writes.ite (fun _ => (Writes.setState trivial).bind fun _ _ => ?_)
        fun _ => Writes.pure trivial
      exact Writes.say (.inr ⟨p, rfl, rfl⟩)

open Work in
theorem writes_agentRules (checked : Checked strict c)
    (loads : Store.Loads store c .rulepacks packs) {agent : Agent}
    (hroots : ∀ root ∈ agent.rulepacks, Validation.Known (c.documents .rulepack) (.text root))
    (project : Option Project) (languages : List String) :
    Writes (RulesReport strict project)
      (fun resolver : Resolver => resolver.rulepacks.Silent (Collection.byId packs))
      (fun resolver => resolver.rulepacks.Silent (Collection.byId packs)) (fun _ => True)
      (Resolver.agentRules agent project languages) := by
  have hitems : Writes (RulesReport strict project)
      (fun resolver : Resolver => resolver.rulepacks.Silent (Collection.byId packs))
      (fun resolver => resolver.rulepacks.Silent (Collection.byId packs))
      (fun items => items = Collection.byId packs) Resolver.rulepackItems := by
    refine Writes.quiet fun resolver log hsilent => ?_
    rw [Resolver.rulepackItems, exec_within, hsilent.exec_items]
    exact ⟨_, _, rfl, .inl rfl, fun _ h => (Except.ok.inj h).symm⟩
  have hrules (referrer : String) : Writes (RulesReport strict project)
      (fun resolver : Resolver => resolver.rulepacks.Silent (Collection.byId packs))
      (fun resolver => resolver.rulepacks.Silent (Collection.byId packs)) (fun _ => True)
      (Resolver.rulesOf agent.rulepacks project referrer languages) := by
    unfold Resolver.rulesOf
    refine Writes.ite (fun _ => Writes.pure trivial) fun _ => ?_
    refine Writes.bind ((Admissions.writes_lists strict project).within (fun _ _ => trivial)
      fun _ _ h _ => h) ?_
    rintro _ rfl
    refine Writes.ite (fun _ => Writes.pure trivial) fun _ => hitems.bind ?_
    rintro _ rfl
    refine Writes.bind (Q := fun _ => True) (Writes.tell fun entry hentry => .inl ?_)
      fun _ _ => Writes.pure trivial
    exact onlyCycle_of_flatten checked loads hroots project languages referrer entry hentry
  unfold Resolver.agentRules
  exact (Writes.attempt fun _ _ => trivial).bind fun name _ => (hrules _).bind
    fun rules _ => Writes.pure trivial

/-- Resolving the rules of an agent reports nothing but cycles and lists in conflict. -/
theorem log_agentRules (checked : Checked strict c) (faithful : store.Faithful)
    (loads : Store.Loads store c .rulepacks packs) {agents : Collection.Items Agent}
    (hagents : Store.Loads store c .agents agents) {item : Value × Path × Agent}
    (hitem : item ∈ agents) (admissions : Admissions) (project : Option Project)
    (languages : List String) :
    ∀ entry ∈ ((Store.resolvingWith admissions
      (Resolver.agentRules item.2.2 project languages)).runFrom store).2.2,
        RulesReport strict project entry := by
  have hwrites :=
    writes_agentRules checked loads (known_of_agent checked hagents hitem) project languages
  refine Work.Writes.runFrom (I := (· = store)) (J := fun _ => True)
    (hwrites.within ?_ fun _ _ _ _ => trivial) rfl
  rintro _ rfl
  exact (loads.stands faithful).rulepackShelf

end

end Playbook
