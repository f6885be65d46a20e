import Mathlib.Data.List.Basic
import Playbook.Proofs.Recipe.Conduct
import Playbook.Proofs.Value

/-!
# The parts around the loop

With ids that name one step each, the groups of a partition are the steps
ahead of the loop, in it and behind it, and the number of a step is its place.
-/

namespace Playbook

/-! ## Places in lists -/

private theorem zipIdx_filter_lt (l : List α) (k n : Nat) :
    ((l.zipIdx k).filter fun entry => decide (entry.2 < k + n)) = (l.zipIdx k).take n := by
  induction l generalizing k n with
  | nil => simp
  | cons a l ih =>
      cases n with
      | zero =>
          rw [List.take_zero, List.filter_eq_nil_iff]
          intro entry hentry
          simpa using List.le_snd_of_mem_zipIdx hentry
      | succ n =>
          have hrest := ih (k + 1) n
          rw [Nat.add_right_comm] at hrest
          rw [List.zipIdx_cons, List.filter_cons_of_pos (by simp), List.take_succ_cons]
          exact congrArg _ hrest

private theorem zipIdx_filter_ge (l : List α) (k n : Nat) :
    ((l.zipIdx k).filter fun entry => decide (k + n ≤ entry.2)) = (l.zipIdx k).drop n := by
  induction l generalizing k n with
  | nil => simp
  | cons a l ih =>
      cases n with
      | zero =>
          rw [List.drop_zero, List.filter_eq_self]
          intro entry hentry
          simpa using List.le_snd_of_mem_zipIdx hentry
      | succ n =>
          have hrest := ih (k + 1) n
          rw [Nat.add_right_comm] at hrest
          rw [List.zipIdx_cons, List.filter_cons_of_neg (by simp), List.drop_succ_cons]
          exact hrest

private theorem zipIdx_filter_between (l : List α) {p : α × Nat → Bool} {a b : Nat}
    (h : ∀ entry, p entry → a ≤ entry.2 ∧ entry.2 < b) :
    l.zipIdx.filter p = ((l.zipIdx.take b).drop a).filter p := by
  have hhead : (((l.zipIdx.take b).take a).filter p) = [] := by
    rw [List.filter_eq_nil_iff]
    intro entry hentry hp
    rw [List.take_take, ← zipIdx_filter_lt, List.mem_filter, decide_eq_true_eq] at hentry
    have hbounds := h entry hp
    omega
  have htail : ((l.zipIdx.drop b).filter p) = [] := by
    rw [List.filter_eq_nil_iff]
    intro entry hentry hp
    rw [← zipIdx_filter_ge, List.mem_filter, decide_eq_true_eq] at hentry
    have hbounds := h entry hp
    omega
  conv_lhs => rw [← List.take_append_drop b l.zipIdx, List.filter_append, htail,
    List.append_nil, ← List.take_append_drop a (l.zipIdx.take b), List.filter_append, hhead,
    List.nil_append]

private theorem exists_find?_reverse {l : List α} {p : α → Bool} {a : α} (h : a ∈ l)
    (hp : p a = true) : ∃ b ∈ l, l.reverse.find? p = some b ∧ p b = true := by
  obtain ⟨b, hb⟩ := Option.isSome_iff_exists.1 <|
    List.find?_isSome.2 ⟨a, List.mem_reverse.2 h, hp⟩
  exact ⟨b, List.mem_reverse.1 (List.mem_of_find?_eq_some hb), hb, List.find?_some hb⟩

namespace Recipe

/-- No two steps have the same id. -/
def DistinctIds (recipe : Recipe) : Prop :=
  recipe.steps.Pairwise fun s t => ¬ s.id.same t.id ∧ ¬ t.id.same s.id

theorem DistinctIds.place_eq {recipe : Recipe} (distinct : recipe.DistinctIds)
    {entry other : Step × Nat} (h : entry ∈ recipe.steps.zipIdx)
    (h' : other ∈ recipe.steps.zipIdx) (hsame : entry.1.id.same other.1.id) :
    entry.2 = other.2 := by
  have hpairs := List.pairwise_iff_getElem.1 distinct
  obtain ⟨hlt, heq⟩ := List.getElem?_eq_some_iff.1 (List.mem_zipIdx_iff_getElem?.1 h)
  obtain ⟨hlt', heq'⟩ := List.getElem?_eq_some_iff.1 (List.mem_zipIdx_iff_getElem?.1 h')
  rcases Nat.lt_trichotomy entry.2 other.2 with hless | hequal | hmore
  · have hdiffer := (hpairs _ _ hlt hlt' hless).1
    rw [heq, heq'] at hdiffer
    exact absurd hsame hdiffer
  · exact hequal
  · have hdiffer := (hpairs _ _ hlt' hlt hmore).2
    rw [heq, heq'] at hdiffer
    exact absurd hsame hdiffer

/-- The number of a step is its place. -/
theorem DistinctIds.stepNumber_eq {recipe : Recipe} (distinct : recipe.DistinctIds)
    {entry : Step × Nat} (h : entry ∈ recipe.numbered) :
    Setting.stepNumber recipe entry.1 = entry.2 := by
  rw [numbered, List.zipIdx_succ, List.mem_map] at h
  obtain ⟨place, hplace, rfl⟩ := h
  obtain ⟨found, hmem, hfound, hsame⟩ :=
    exists_find?_reverse (p := fun other => other.1.id.same place.1.id) hplace
      (Value.same_refl place.1.id)
  have hat := distinct.place_eq hmem hplace hsame
  rw [Setting.stepNumber, hfound]
  simp [hat]

end Recipe

namespace Partition

theorem isAmong_iff {v : Value} {names : List String} :
    v.isAmong names ↔ ∃ name ∈ names, v = .text name := by
  cases v <;> simp [Value.isAmong]

variable {recipe : Recipe}

theorem lastIndex?_eq_some (distinct : recipe.DistinctIds) {name : String} {i : Nat} :
    lastIndex? recipe.steps name = some i ↔
      ∃ step, (step, i) ∈ recipe.steps.zipIdx ∧ step.id = .text name := by
  unfold lastIndex?
  constructor
  · intro h
    obtain ⟨found, hfound, rfl⟩ := Option.map_eq_some_iff.1 h
    have hname := List.find?_some hfound
    obtain ⟨_, hmem, hid⟩ := isAmong_iff.1 hname
    rw [List.mem_singleton.1 hmem] at hid
    exact ⟨found.1, List.mem_reverse.1 (List.mem_of_find?_eq_some hfound), hid⟩
  · rintro ⟨step, hstep, hid⟩
    obtain ⟨found, hmem, hfound, hname⟩ :=
      exists_find?_reverse (p := fun entry => entry.1.id.isAmong [name]) hstep
        (isAmong_iff.2 ⟨name, List.mem_singleton_self _, hid⟩)
    obtain ⟨_, hlisted, hfoundid⟩ := isAmong_iff.1 hname
    have hsame : found.1.id.same step.id := by
      rw [hfoundid, hid, List.mem_singleton.1 hlisted, Value.same_refl]
    have hat := distinct.place_eq hmem hstep hsame
    rw [hfound, Option.map_some, hat]

theorem mem_indices (distinct : recipe.DistinctIds) {names : List String} {i : Nat} :
    i ∈ indices recipe.steps names ↔
      ∃ step, (step, i) ∈ recipe.steps.zipIdx ∧ step.id.isAmong names := by
  simp only [indices, List.mem_filterMap, lastIndex?_eq_some distinct, isAmong_iff]
  constructor
  · rintro ⟨name, hname, step, hstep, hid⟩
    exact ⟨step, hstep, name, hname, hid⟩
  · rintro ⟨step, hstep, name, hname, hid⟩
    exact ⟨name, hname, step, hstep, hid⟩

theorem min?_eq_first {positions : List Nat} (h : positions ≠ []) :
    positions.min? = some (first positions) := by
  cases positions with
  | nil => exact absurd rfl h
  | cons i positions => rw [List.min?_cons', first, List.headD_cons, List.foldl_cons, Nat.min_self]

theorem max?_eq_last {positions : List Nat} (h : positions ≠ []) :
    positions.max? = some (last positions) := by
  cases positions with
  | nil => exact absurd rfl h
  | cons i positions => rw [List.max?_cons', last, List.foldl_cons, Nat.zero_max]

theorem isSome_lastIndex? {steps : List Step} {name : String} :
    (lastIndex? steps name).isSome ↔ ∃ step ∈ steps, step.id = .text name := by
  rw [lastIndex?, Option.isSome_map, List.find?_isSome]
  constructor
  · rintro ⟨entry, hentry, hname⟩
    obtain ⟨other, hother, hid⟩ := isAmong_iff.1 hname
    rw [List.mem_singleton.1 hother] at hid
    exact ⟨entry.1, List.fst_mem_of_mem_zipIdx (List.mem_reverse.1 hentry), hid⟩
  · rintro ⟨step, hstep, hid⟩
    obtain ⟨index, hindex, rfl⟩ := List.mem_iff_getElem.1 hstep
    have hentry := List.mk_mem_zipIdx_iff_getElem?.2 (List.getElem?_eq_getElem hindex)
    exact ⟨_, List.mem_reverse.2 hentry, isAmong_iff.2 ⟨name, List.mem_singleton_self _, hid⟩⟩

theorem indices_ne_nil {steps : List Step} {names : List String} :
    indices steps names ≠ [] ↔ ∃ name ∈ names, ∃ step ∈ steps, step.id = .text name := by
  rw [indices, ne_eq, List.filterMap_eq_nil_iff, not_forall]
  simp only [← isSome_lastIndex?, ← ne_eq, Option.isSome_iff_ne_none,
    Classical.not_imp]

/-- A place of a named step is the place of a step. -/
theorem lt_length_of_mem_indices {steps : List Step} {names : List String} {i : Nat}
    (h : i ∈ indices steps names) : i < steps.length := by
  obtain ⟨name, -, hlast⟩ := List.mem_filterMap.1 h
  obtain ⟨entry, hentry, rfl⟩ := Option.map_eq_some_iff.1 hlast
  have hmem := List.mem_reverse.1 (List.mem_of_find?_eq_some hentry)
  simpa using List.snd_lt_add_of_mem_zipIdx hmem

end Partition

namespace Recipe

/-- The places of the steps that the loop names, from zero. -/
def positions (recipe : Recipe) : List Nat := Partition.indices recipe.steps recipe.loopNames

variable {recipe : Recipe}

theorem mem_looped (distinct : recipe.DistinctIds) {entry : Step × Nat}
    (h : entry ∈ recipe.steps.zipIdx) :
    entry.1.id.isAmong recipe.loopNames ↔
      entry.2 ∈ recipe.positions := by
  rw [positions, Partition.mem_indices distinct]
  constructor
  · intro hnamed
    exact ⟨entry.1, h, hnamed⟩
  · rintro ⟨step, hstep, hnamed⟩
    have hentry := List.mem_zipIdx_iff_getElem?.1 h
    rw [List.mk_mem_zipIdx_iff_getElem?, hentry] at hstep
    rwa [Option.some.inj hstep]

theorem looped_eq (distinct : recipe.DistinctIds) :
    recipe.looped =
      (recipe.steps.zipIdx.filter fun entry =>
        recipe.positions.contains entry.2).map
          fun entry => (entry.1, entry.2 + 1) := by
  rw [looped, numbered, List.zipIdx_succ, List.filter_map]
  refine congrArg _ (List.filter_congr fun entry hentry => ?_)
  rw [Bool.eq_iff_iff, List.contains_iff_mem]
  exact mem_looped distinct hentry

theorem forall_looped (distinct : recipe.DistinctIds) (p : Nat → Prop) :
    (∀ entry ∈ recipe.looped, p entry.2) ↔
      ∀ i ∈ recipe.positions, p (i + 1) := by
  rw [looped_eq distinct]
  simp only [List.mem_map, List.mem_filter, List.contains_iff_mem]
  constructor
  · intro h i hi
    obtain ⟨step, hstep, _⟩ := (Partition.mem_indices distinct).1 hi
    exact h (step, i + 1) ⟨(step, i), ⟨hstep, hi⟩, rfl⟩
  · rintro h _ ⟨place, ⟨_, hplace⟩, rfl⟩
    exact h place.2 hplace

theorem looped_eq_nil (distinct : recipe.DistinctIds) :
    recipe.looped = [] ↔ recipe.positions = [] := by
  have hnone := forall_looped distinct fun _ => False
  simpa [List.eq_nil_iff_forall_not_mem] using hnone

theorem ahead_of_looped_nil (h : recipe.looped = []) : recipe.ahead.map (·.1) = recipe.steps := by
  rw [ahead, h, List.filter_eq_self.2 (by simp), numbered, List.zipIdx_map_fst]

theorem behind_of_looped_nil (h : recipe.looped = []) : recipe.behind = [] := by
  rw [behind, h]
  rfl

theorem ahead_eq_take (distinct : recipe.DistinctIds)
    (h : recipe.positions ≠ []) :
    recipe.ahead.map (·.1) =
      recipe.steps.take (Partition.first recipe.positions) := by
  have hfirst := List.min?_eq_some_iff.1 (Partition.min?_eq_first h)
  have hall : ∀ entry : Step × Nat,
      (recipe.looped.all fun other => decide (entry.2 < other.2)) =
        decide (entry.2 <
          1 + Partition.first recipe.positions) := by
    intro entry
    rw [Bool.eq_iff_iff, List.all_eq_true]
    simp only [decide_eq_true_eq]
    rw [forall_looped distinct fun place => entry.2 < place]
    constructor
    · intro hless
      have hbound := hless _ hfirst.1
      omega
    · intro hless i hi
      have hleast := hfirst.2 i hi
      omega
  rw [ahead, List.filter_congr fun entry _ => hall entry, numbered, zipIdx_filter_lt,
    List.map_take, List.zipIdx_map_fst]

theorem behind_eq_drop (distinct : recipe.DistinctIds)
    (h : recipe.positions ≠ []) :
    recipe.behind.map (·.1) =
      recipe.steps.drop (Partition.last recipe.positions + 1) := by
  have hlast := List.max?_eq_some_iff.1 (Partition.max?_eq_last h)
  have hall : ∀ entry : Step × Nat,
      (recipe.looped.all fun other => decide (other.2 < entry.2)) =
        decide (1 + (Partition.last recipe.positions + 1) ≤
          entry.2) := by
    intro entry
    rw [Bool.eq_iff_iff, List.all_eq_true]
    simp only [decide_eq_true_eq]
    rw [forall_looped distinct fun place => place < entry.2]
    constructor
    · intro hless
      have hbound := hless _ hlast.1
      omega
    · intro hless i hi
      have hmost := hlast.2 i hi
      omega
  have hsome : recipe.looped.isEmpty = false := by
    rw [List.isEmpty_eq_false_iff, ne_eq, looped_eq_nil distinct]
    exact h
  rw [behind, hsome, if_neg Bool.false_ne_true, List.filter_congr fun entry _ => hall entry,
    numbered, zipIdx_filter_ge, List.map_drop, List.zipIdx_map_fst]

/-- The named steps between the first and the last place are all of them. -/
theorem looped_eq_range (distinct : recipe.DistinctIds) (h : recipe.positions ≠ []) :
    recipe.looped.map (·.1) =
      ((Partition.range recipe.steps recipe.positions).filter fun entry =>
        recipe.positions.contains entry.2).map (·.1) := by
  have hfirst := (List.min?_eq_some_iff.1 (Partition.min?_eq_first h)).2
  have hlast := (List.max?_eq_some_iff.1 (Partition.max?_eq_last h)).2
  rw [looped_eq distinct, List.map_map, Partition.range]
  refine congrArg _ (zipIdx_filter_between _ fun entry hentry => ?_)
  have hplace := List.contains_iff_mem.1 hentry
  exact ⟨hfirst _ hplace, Nat.lt_succ_of_le (hlast _ hplace)⟩

end Recipe

/-- The body of the loop has the step at its first place. -/
theorem Partition.ofPositions_loopBody_ne_nil {recipe : Recipe} (h : recipe.positions ≠ []) :
    (ofPositions recipe.steps recipe.positions).loopBody ≠ [] := by
  have hfirst := (List.min?_eq_some_iff.1 (min?_eq_first h)).1
  have hlast := (List.max?_eq_some_iff.1 (max?_eq_last h)).2 _ hfirst
  have hlength := lt_length_of_mem_indices hfirst
  rw [ofPositions, range, ne_eq, List.map_eq_nil_iff]
  generalize first recipe.positions = place at hfirst hlast hlength
  have hplace : place < (recipe.steps.zipIdx.take (last recipe.positions + 1)).length := by
    simp only [List.length_take, List.length_zipIdx]
    omega
  rw [List.drop_eq_getElem_cons hplace, List.filter_cons_of_pos]
  · exact List.cons_ne_nil _ _
  · simpa using hfirst

/-- There is a body of the loop exactly if the loop names a step. -/
theorem Partition.loopBody_ne_nil_iff {recipe : Recipe} {partition : Partition} {reports : Log}
    (h : ofRecipe recipe = .ok (partition, reports)) :
    partition.loopBody ≠ [] ↔
      ∃ loop ∈ recipe.loop, ∃ name ∈ loop.steps, ∃ step ∈ recipe.steps, step.id = .text name := by
  have hwhole (hnone : ¬ recipe.positions ≠ []) :
      (whole recipe.steps).loopBody ≠ [] ↔ recipe.positions ≠ [] := by
    simpa [whole] using hnone
  have hnamed : recipe.positions ≠ [] ↔
      ∃ loop ∈ recipe.loop, ∃ name ∈ loop.steps, ∃ step ∈ recipe.steps, step.id = .text name := by
    rw [Recipe.positions, indices_ne_nil, Recipe.loopNames]
    cases recipe.loop <;> simp
  rw [← hnamed]
  unfold ofRecipe at h
  cases hloop : recipe.loop with
  | none =>
      rw [hloop] at h
      cases h
      exact hwhole (by simp [Recipe.positions, Recipe.loopNames, hloop, indices])
  | some loop =>
      have hpositions : indices recipe.steps loop.steps = recipe.positions := by
        rw [Recipe.positions, Recipe.loopNames, hloop]
        rfl
      simp only [hloop, hpositions] at h
      split at h
      · rename_i hempty
        cases h
        exact hwhole (by simp [← hpositions, List.isEmpty_iff.1 hempty, indices])
      · split at h
        · cases h
        · split at h
          · rename_i hempty
            cases h
            exact hwhole (by simpa using hempty)
          · rename_i hsome
            cases h
            have hne : recipe.positions ≠ [] := by simpa using hsome
            exact iff_of_true (ofPositions_loopBody_ne_nil hne) hne

/-- The groups of a partition are the parts of the recipe. -/
theorem Partition.ofRecipe_eq {recipe : Recipe} (distinct : recipe.DistinctIds)
    {partition : Partition} {log : Log}
    (h : Partition.ofRecipe recipe = .ok (partition, log)) :
    partition =
      ⟨recipe.ahead.map (·.1), recipe.looped.map (·.1), recipe.behind.map (·.1)⟩ := by
  have hwhole (hnone : recipe.looped = []) : Partition.whole recipe.steps =
      ⟨recipe.ahead.map (·.1), recipe.looped.map (·.1), recipe.behind.map (·.1)⟩ := by
    rw [Recipe.ahead_of_looped_nil hnone, Recipe.behind_of_looped_nil hnone, hnone]
    rfl
  have hnone (hempty : recipe.positions = []) := hwhole ((Recipe.looped_eq_nil distinct).2 hempty)
  unfold ofRecipe at h
  cases hloop : recipe.loop with
  | none =>
      have hnames : recipe.loopNames = [] := by rw [Recipe.loopNames, hloop]; rfl
      rw [hloop] at h
      cases h
      exact hnone (by rw [Recipe.positions, hnames]; rfl)
  | some loop =>
      have hnames : recipe.loopNames = loop.steps := by rw [Recipe.loopNames, hloop]; rfl
      simp only [hloop] at h
      rw [← hnames] at h
      split at h
      · case isTrue hempty =>
        cases h
        exact hnone (by rw [Recipe.positions, List.isEmpty_iff.1 hempty]; rfl)
      · split at h
        · cases h
        · split at h
          · case isTrue hempty =>
            cases h
            exact hnone (List.isEmpty_iff.1 hempty)
          · case isFalse hsome =>
            have hsome : recipe.positions ≠ [] := fun heq => hsome (List.isEmpty_iff.2 heq)
            cases h
            rw [Recipe.ahead_eq_take distinct hsome, Recipe.behind_eq_drop distinct hsome,
              Recipe.looped_eq_range distinct hsome]
            rfl

end Playbook
