import Playbook.Proofs.Recipe.Messages
import Playbook.Proofs.Recipe.Parts
import Playbook.Proofs.Validation.Rules
import Playbook.Proofs.Value

/-!
# Compilations from a repository that was checked

Every agent of a recipe is there, and its loop names only steps that it has.
A compilation without a project then reports nothing but steps that lie
between those of the loop.
-/

namespace Playbook

open Work
open Validation (Checked membersOf field)

/-- A recipe all of whose steps have agents, with a loop over some of its steps. -/
structure Recipe.Supplied (agents : List (Value × Agent)) (recipe : Recipe) : Prop where
  agents : ∀ step ∈ recipe.steps, ∃ id, step.agent = .text id ∧
    (Shelf.find? agents (.text id)).isSome
  loop : ∀ loop ∈ recipe.loop, ∀ name ∈ loop.steps, ∃ step ∈ recipe.steps, step.id = .text name

/-! ## The loop -/

theorem Recipe.Supplied.gaps {agents : List (Value × Agent)} {recipe : Recipe}
    (supplied : recipe.Supplied agents) {partition : Partition} {reports : Log}
    (h : Partition.ofRecipe recipe = .ok (partition, reports)) :
    ∀ entry ∈ reports, ∃ step, entry = Partition.gapWarning recipe.id step := by
  have hnone (hreports : reports = []) :
      ∀ entry ∈ reports, ∃ step, entry = Partition.gapWarning recipe.id step := by
    simp [hreports]
  rw [Partition.ofRecipe] at h
  split at h
  · cases h
    exact hnone rfl
  · rename_i loop hloop
    have hknown : (loop.steps.filter fun name =>
        (Partition.lastIndex? recipe.steps name).isNone) = [] := by
      refine List.filter_eq_nil_iff.2 fun name hname => ?_
      obtain ⟨step, hstep, hid⟩ := supplied.loop loop hloop name hname
      simpa using Option.isSome_iff_ne_none.1 (Partition.isSome_lastIndex?.2 ⟨step, hstep, hid⟩)
    split at h
    · cases h
      exact hnone rfl
    · split at h
      · cases h
      · simp only [hknown] at h
        split at h
        · cases h
          exact hnone rfl
        · cases h
          intro entry hentry
          obtain ⟨gap, -, rfl⟩ := List.mem_map.1 hentry
          exact ⟨gap.1, rfl⟩

/-! ## Agents -/

/-- A desk that answers from a collection and without a message. -/
structure AgentDesk.Stocked (desk : AgentDesk) (items : List (Value × Agent)) : Prop where
  shelf : desk.shelf.Silent items
  cache : ∀ entry ∈ desk.cache, entry.2 = Shelf.find? items entry.1

theorem AgentDesk.writes_get? {P : LogEntry → Prop} {items : List (Value × Agent)} (id : String) :
    Writes P (fun desk : AgentDesk => desk.Stocked items) (fun desk => desk.Stocked items)
      (fun found => found = Shelf.find? items (.text id)) (get? (.text id)) := by
  refine Writes.quiet fun desk log stocked => ?_
  have hkey : (Value.text id).canBeKey = true := rfl
  unfold get?
  rw [hkey, Bool.not_true, if_neg Bool.false_ne_true, exec_bind_ok (exec_state _ _)]
  cases hcached : AgentCache.find? desk.cache (.text id) with
  | some agent =>
      refine ⟨_, _, rfl, stocked, ?_⟩
      rintro _ ⟨⟩
      obtain ⟨entry, hentry, rfl⟩ := Option.map_eq_some_iff.1 hcached
      have hsame := List.find?_some hentry
      rw [stocked.cache entry (List.mem_of_find?_eq_some hentry), Value.eq_of_same_text hsame]
  | none =>
      have hget : exec (within (·.shelf) (fun shelf desk => { desk with shelf })
          (Shelf.get? (.text id))) (desk, log) =
            (.ok (Shelf.find? items (.text id)), { desk with shelf := .ready items }, log) := by
        rw [exec_within, Shelf.get?, exec_bind_ok (stocked.shelf.exec_items log)]
        rfl
      rw [exec_bind_ok hget]
      refine ⟨_, _, rfl, ⟨.inl rfl, fun entry hentry => ?_⟩, fun _ h => (Except.ok.inj h).symm⟩
      rcases List.mem_append.1 hentry with hentry | hentry
      · exact stocked.cache entry hentry
      · obtain rfl := List.mem_singleton.1 hentry
        rfl

namespace Setting

variable {P : LogEntry → Prop} {setting : Setting} {recipe : Recipe}
  {items : List (Value × Agent)}

theorem lowersWith_of_supplied (hproject : setting.project = none)
    (supplied : recipe.Supplied items) :
    LowersWith P (fun run => run.agents.Stocked items) setting recipe := by
  intro step hstep index number backend
  obtain ⟨id, hagent, hfound⟩ := supplied.agents step hstep
  obtain ⟨agent, hfind⟩ := Option.isSome_iff_exists.1 hfound
  unfold lowerStep
  rw [hagent]
  refine (Writes.attempt fun _ _ => trivial).bind fun title _ => ?_
  refine ((AgentDesk.writes_get? id).within (fun _ h => h) fun _ _ _ h => h).bind ?_
  rintro _ rfl
  rw [hfind]
  refine Writes.bind (Q := fun excluded => excluded = none) ?_ ?_
  · rw [excludedBy?, hproject]
    exact Writes.pure rfl
  · rintro _ rfl
    exact Writes.attempt fun _ _ => trivial

end Setting

/-! ## Recipes of a repository -/

section

variable {strict : Prop} {store : Store} {c : Validation.Check}
  {agents : Collection.Items Agent} {recipes : Collection.Items Recipe}

theorem Store.Loads.isSome_find? (loads : Store.Loads store c .agents agents) {id : String}
    (hknown : Validation.Known (c.documents .agent) (.text id)) :
    (Shelf.find? (Collection.byId agents) (.text id)).isSome := by
  obtain ⟨item, hitem, hid⟩ := loads.exists_item hknown
  rw [Shelf.find?, Option.isSome_map, List.find?_isSome]
  refine ⟨_, List.mem_map_of_mem hitem, ?_⟩
  rw [hid, Value.same_refl]

theorem supplied_of_checked (checked : Checked strict c)
    (hagents : Store.Loads store c .agents agents) (hrecipes : Store.Loads store c .recipes recipes)
    {item : Value × Path × Recipe} (hitem : item ∈ recipes) :
    item.2.2.Supplied (Collection.byId agents) := by
  obtain ⟨entry, hentry, hholds⟩ := hrecipes.exists_document hitem
  have hreads : Recipe.Reads entry.2.value item.2.2 := hholds.reads
  obtain ⟨members, hmembers, hsteps, hloop⟩ := checked.recipes entry hentry
  obtain ⟨_, hsame, hall⟩ := hreads.steps
  obtain rfl := Except.ok.inj (hmembers.symm.trans hsame)
  have hmappings : members.filter (·.isMapping) = members := by
    refine List.filter_eq_self.2 fun x hx => ?_
    obtain ⟨step, -, hstep⟩ := exists_right_of_mem hall hx
    exact hstep.mapping
  rw [hmappings] at hsteps hloop
  refine ⟨fun step hstep => ?_, fun loop hmem name hname => ?_⟩
  · obtain ⟨x, hx, hread⟩ := exists_left_of_mem hall hstep
    obtain ⟨agent, hfilled, hfield, hagent⟩ := hread.agent
    refine ⟨agent, hagent, hagents.isSome_find? ?_⟩
    have hknown := hsteps x hx
    rw [Validation.StepKnown, hfield] at hknown
    exact hknown (by simpa [Value.isGiven, String.isEmpty_iff] using hfilled)
  · obtain ⟨hmapping, hnames⟩ := hreads.loop loop hmem
    obtain ⟨refs, hrefs, hknown⟩ := hloop hmapping
    obtain rfl := Except.ok.inj (hnames.symm.trans hrefs)
    obtain ⟨_, hid, hsame⟩ := List.any_eq_true.1 (hknown _ (List.mem_map_of_mem hname))
    obtain ⟨x, hx, rfl⟩ := List.mem_map.1 hid
    obtain ⟨step, hstep, hread⟩ := exists_right_of_mem hall hx
    obtain ⟨id, hfield, hown⟩ := hread.id
    exact ⟨step, hstep, (hown.trans hfield.symm).trans (Value.eq_of_same_text hsame)⟩

/-- Compiling a recipe without a project reports nothing but gaps in its loop. -/
theorem log_compile (checked : Checked strict c) (faithful : store.Faithful)
    (hagents : Store.Loads store c .agents agents) (hrecipes : Store.Loads store c .recipes recipes)
    {item : Value × Path × Recipe} (hitem : item ∈ recipes) {setting : Setting}
    (hproject : setting.project = none) (tool : Value) (time : String)
    (admissions : Admissions) :
    ∀ entry ∈ ((setting.compile item.2.2 tool time).runFrom
      ⟨⟨store.agentShelf, []⟩, admissions⟩).2.2,
        ∃ step, entry = Partition.gapWarning item.2.2.id step := by
  have supplied := supplied_of_checked checked hagents hrecipes hitem
  refine Writes.runFrom ((Setting.lowersWith_of_supplied hproject supplied).compile
    (fun partition reports h => supplied.gaps h) tool time) ⟨?_, by simp⟩
  exact (hagents.stands faithful).agentShelf

end

end Playbook
