import Mathlib.Data.List.Basic
import Playbook.Proofs.Recipe.Parts

/-!
# Partitions

A partition holds each place of a recipe at most once and in order. What is in
none of its groups lies between two steps of the loop and is reported, as is
each unknown name that the loop lists; how the loop lists its names, how often
and among which unknown ones, makes no difference to the groups.
-/

namespace Playbook

/-! ## Places -/

theorem filterMap_getElem?_range' {α : Type} (l : List α) (start count : Nat) :
    (List.range' start count).filterMap (l[·]?) = (l.drop start).take count := by
  induction count generalizing start with
  | zero => simp
  | succ count ih =>
      rw [List.range'_succ, List.filterMap_cons, ih]
      cases hstart : l[start]? with
      | none =>
          have hle : l.length ≤ start := List.getElem?_eq_none_iff.1 hstart
          rw [List.drop_eq_nil_of_le hle, List.drop_eq_nil_of_le (by omega)]
          simp
      | some a =>
          obtain ⟨hlt, rfl⟩ := List.getElem?_eq_some_iff.1 hstart
          rw [List.drop_eq_getElem_cons hlt, List.take_succ_cons]

namespace Recipe

variable {recipe : Recipe}

/-- The steps at some places, which are counted from zero. -/
def stepsAt (recipe : Recipe) (places : List Nat) : List Step :=
  places.filterMap (recipe.steps[·]?)

theorem stepsAt_range' (recipe : Recipe) (start count : Nat) :
    recipe.stepsAt (List.range' start count) = (recipe.steps.drop start).take count :=
  filterMap_getElem?_range' recipe.steps start count

def knowsStep (recipe : Recipe) (name : String) : Bool :=
  recipe.steps.any fun step => step.id.isAmong [name]

/-- The step at a place is the last one with a name. -/
def IsLast (recipe : Recipe) (name : String) (place : Nat) : Prop :=
  ∃ step, recipe.steps[place]? = some step ∧ step.id = .text name ∧
    ∀ later other, place < later → recipe.steps[later]? = some other → other.id ≠ .text name

/-- A loop that names steps is set beside the ids of all steps, which have to be possible keys. -/
def Divisible (recipe : Recipe) : Prop :=
  recipe.loopNames = [] ∨ ∀ step ∈ recipe.steps, step.id.canBeKey = true

/-- A loop lists the same steps, in any order, repeatedly and among any unknown names. -/
def Relists (recipe : Recipe) (loop : Loop) : Prop :=
  { recipe with loop := some loop }.Divisible ∧
    ∀ name, recipe.knowsStep name = true → (name ∈ loop.steps ↔ name ∈ recipe.loopNames)

end Recipe

namespace Partition

variable {steps : List Step} {names : List String} {name : String} {i : Nat}

theorem isAmong_singleton {v : Value} : v.isAmong [name] = true ↔ v = .text name := by
  simp [isAmong_iff]

theorem lastIndex?_concat (steps : List Step) (step : Step) (name : String) :
    lastIndex? (steps ++ [step]) name =
      if step.id.isAmong [name] then some steps.length else lastIndex? steps name := by
  rw [lastIndex?, List.zipIdx_append, List.reverse_append]
  simp only [List.zipIdx_singleton, List.reverse_singleton, List.singleton_append, Nat.zero_add,
    List.find?_cons]
  split <;> simp_all [lastIndex?]

theorem lastIndex?_eq_some_iff :
    lastIndex? steps name = some i ↔
      ∃ step, steps[i]? = some step ∧ step.id = .text name ∧
        ∀ j other, i < j → steps[j]? = some other → other.id ≠ .text name := by
  induction steps using List.reverseRecOn with
  | nil => simp [lastIndex?]
  | append_singleton steps last ih =>
      rw [lastIndex?_concat]
      have hlast : (steps ++ [last])[steps.length]? = some last := by simp
      have hbefore {j : Nat} (hj : j < steps.length) : (steps ++ [last])[j]? = steps[j]? :=
        List.getElem?_append_left hj
      have hbound {j : Nat} {other : Step} (h : (steps ++ [last])[j]? = some other) :
          j ≤ steps.length := by
        have hlt := (List.getElem?_eq_some_iff.1 h).1
        rw [List.length_append, List.length_singleton] at hlt
        omega
      by_cases hname : last.id.isAmong [name]
      · have hid := isAmong_singleton.1 hname
        rw [if_pos hname, Option.some.injEq]
        constructor
        · rintro rfl
          refine ⟨last, hlast, hid, fun j other hj hother => ?_⟩
          have hle := hbound hother
          omega
        · rintro ⟨step, hstep, -, hlater⟩
          have hle := hbound hstep
          by_contra hne
          exact hlater steps.length last (by omega) hlast hid
      · have hid : last.id ≠ .text name := mt isAmong_singleton.2 hname
        rw [if_neg hname, ih]
        constructor
        · rintro ⟨step, hstep, hown, hlater⟩
          have hi : i < steps.length := (List.getElem?_eq_some_iff.1 hstep).1
          refine ⟨step, by rw [hbefore hi, hstep], hown, fun j other hj hother => ?_⟩
          rcases Nat.lt_or_ge j steps.length with hlt | hge
          · exact hlater j other hj (by rw [← hbefore hlt, hother])
          · obtain rfl : j = steps.length := by
              have hle := hbound hother
              omega
            rw [hlast] at hother
            exact Option.some.inj hother ▸ hid
        · rintro ⟨step, hstep, hown, hlater⟩
          have hi : i < steps.length := by
            have hle := hbound hstep
            rcases Nat.lt_or_ge i steps.length with hlt | hge
            · exact hlt
            · obtain rfl : i = steps.length := by omega
              rw [hlast] at hstep
              exact absurd hown (Option.some.inj hstep ▸ hid)
          refine ⟨step, by rw [← hbefore hi, hstep], hown, fun j other hj hother => ?_⟩
          have hlt := (List.getElem?_eq_some_iff.1 hother).1
          exact hlater j other hj (by rw [hbefore hlt, hother])

theorem mem_positions_iff {recipe : Recipe} :
    i ∈ recipe.positions ↔ ∃ name ∈ recipe.loopNames, recipe.IsLast name i := by
  rw [Recipe.positions, indices, List.mem_filterMap]
  exact exists_congr fun name => and_congr_right fun _ => lastIndex?_eq_some_iff

theorem isNone_lastIndex? (recipe : Recipe) (name : String) :
    (lastIndex? recipe.steps name).isNone = !recipe.knowsStep name := by
  have hsome : (lastIndex? recipe.steps name).isSome = recipe.knowsStep name := by
    rw [Bool.eq_iff_iff, isSome_lastIndex?, Recipe.knowsStep, List.any_eq_true]
    exact exists_congr fun step => and_congr_right fun _ => isAmong_singleton.symm
  rw [← hsome, Option.not_isSome]

/-- The steps of a stretch with their places, taken one by one. -/
theorem range_eq_filterMap (steps : List Step) (places : List Nat) :
    range steps places =
      (List.range' (first places) (last places + 1 - first places)).filterMap
        (steps.zipIdx[·]?) := by
  rw [range, List.drop_take, filterMap_getElem?_range']

/-- The steps of a stretch at the places with a property. -/
theorem map_filter_range (recipe : Recipe) (places : List Nat) (p : Nat → Bool) :
    ((range recipe.steps places).filter fun entry => p entry.2).map (·.1) =
      recipe.stepsAt
        ((List.range' (first places) (last places + 1 - first places)).filter p) := by
  rw [range_eq_filterMap, List.filter_filterMap, List.map_filterMap, Recipe.stepsAt,
    List.filterMap_filter]
  refine List.filterMap_congr fun i _ => ?_
  rw [List.getElem?_zipIdx]
  cases recipe.steps[i]? with
  | none => simp
  | some step => cases hp : p i <;> simp [hp]

/-! ## Groups -/

/--
The places in the groups of a partition, those in none of them, and the
reports. The body has the last step for each name of the loop, and a gap is
what lies between two steps of the body without being one.
-/
structure Divides (recipe : Recipe) (pre body post gaps : List Nat) (partition : Partition)
    (reports : Log) : Prop where
  groups : partition = ⟨recipe.stepsAt pre, recipe.stepsAt body, recipe.stepsAt post⟩
  increasing : (pre ++ body ++ post).Pairwise (· < ·)
  bounded : ∀ i ∈ pre ++ body ++ post, i < recipe.steps.length
  mem_body : ∀ i, i ∈ body ↔ ∃ name ∈ recipe.loopNames, recipe.IsLast name i
  gaps_increasing : gaps.Pairwise (· < ·)
  mem_gaps : ∀ i, i ∈ gaps ↔ i < recipe.steps.length ∧ i ∉ pre ++ body ++ post
  inside : ∀ i, i ∈ gaps ↔ i ∉ body ∧ ∃ a ∈ body, ∃ b ∈ body, a < i ∧ i < b
  reported : reports =
    (recipe.loopNames.filter fun name => !recipe.knowsStep name).map (unknownWarning recipe.id) ++
      (recipe.stepsAt gaps).map (gapWarning recipe.id)
  unlooped : (∀ name ∈ recipe.loopNames, recipe.knowsStep name = false) →
    partition = ⟨recipe.steps, [], []⟩
  distinct : recipe.DistinctIds →
    partition.loopBody = recipe.steps.filter fun step => step.id.isAmong recipe.loopNames

variable {recipe : Recipe}

def unknownReports (recipe : Recipe) : Log :=
  (recipe.loopNames.filter fun name => !recipe.knowsStep name).map (unknownWarning recipe.id)

def gapReports (recipe : Recipe) : Log :=
  ((range recipe.steps recipe.positions).filter fun entry =>
    !recipe.positions.contains entry.2).map fun entry => gapWarning recipe.id entry.1

/-- The groups that the places of the loop make. -/
def groups (recipe : Recipe) : Partition :=
  if recipe.positions = [] then whole recipe.steps else ofPositions recipe.steps recipe.positions

def reports (recipe : Recipe) : Log :=
  if recipe.positions = [] then unknownReports recipe
  else unknownReports recipe ++ gapReports recipe

theorem ofRecipe_of_divisible (h : recipe.Divisible) :
    ofRecipe recipe = .ok (groups recipe, reports recipe) := by
  unfold ofRecipe groups reports
  cases hloop : recipe.loop with
  | none =>
      have hnames : recipe.loopNames = [] := by simp [Recipe.loopNames, hloop]
      simp [Recipe.positions, indices, unknownReports, hnames]
  | some loop =>
      have hnames : recipe.loopNames = loop.steps := by simp [Recipe.loopNames, hloop]
      have hpositions : indices recipe.steps loop.steps = recipe.positions := by
        rw [Recipe.positions, hnames]
      simp only [hpositions, isNone_lastIndex?, List.isEmpty_iff]
      split
      · rename_i hempty
        simp [← hpositions, indices, unknownReports, hnames, hempty]
      · rename_i hsome
        have hkeys : ∀ step ∈ recipe.steps, step.id.canBeKey = true :=
          h.resolve_left (by rwa [hnames])
        rw [if_neg (by simpa using hkeys), unknownReports, hnames]
        split <;> rfl

/-- Steps whose ids cannot be keys stand in the way of a loop. -/
theorem ofRecipe_of_not_divisible (h : ¬ recipe.Divisible) :
    ofRecipe recipe = .error .wrongType := by
  obtain ⟨hnames, hkeys⟩ := not_or.1 h
  unfold ofRecipe
  cases hloop : recipe.loop with
  | none => exact absurd (by simp [Recipe.loopNames, hloop]) hnames
  | some loop =>
      have hsome : loop.steps ≠ [] := by simpa [Recipe.loopNames, hloop] using hnames
      simp only [List.isEmpty_iff, if_neg hsome]
      rw [if_pos (by simpa using hkeys)]

theorem positions_eq_nil_iff :
    recipe.positions = [] ↔ ∀ name ∈ recipe.loopNames, recipe.knowsStep name = false := by
  rw [Recipe.positions, indices, List.filterMap_eq_nil_iff]
  refine forall₂_congr fun name _ => ?_
  rw [← Option.isNone_iff_eq_none, isNone_lastIndex?, Bool.not_eq_true']

theorem stepsAt_range (recipe : Recipe) (n : Nat) :
    recipe.stepsAt (List.range n) = recipe.steps.take n := by
  rw [List.range_eq_range', Recipe.stepsAt_range', List.drop_zero]

/-- Without a step for the loop, all steps stand before it. -/
theorem divides_whole (h : recipe.positions = []) :
    Divides recipe (List.range recipe.steps.length) [] [] [] (whole recipe.steps)
      (unknownReports recipe) where
  groups := by rw [stepsAt_range, List.take_length]; rfl
  increasing := by simpa using List.pairwise_lt_range
  bounded := by simp
  mem_body i := by rw [← mem_positions_iff, h]
  gaps_increasing := .nil
  mem_gaps := by simp
  inside := by simp
  reported := by simp [unknownReports, Recipe.stepsAt]
  unlooped _ := rfl
  distinct _ := by
    refine (List.filter_eq_nil_iff.2 fun step hstep hnamed => ?_).symm
    obtain ⟨name, hname, hid⟩ := isAmong_iff.1 hnamed
    have hunknown := positions_eq_nil_iff.1 h name hname
    rw [Recipe.knowsStep, List.any_eq_false] at hunknown
    exact hunknown step hstep (isAmong_singleton.2 hid)

theorem first_mem (h : recipe.positions ≠ []) : first recipe.positions ∈ recipe.positions :=
  (List.min?_eq_some_iff.1 (min?_eq_first h)).1

theorem last_mem (h : recipe.positions ≠ []) : last recipe.positions ∈ recipe.positions :=
  (List.max?_eq_some_iff.1 (max?_eq_last h)).1

theorem first_le (hi : i ∈ recipe.positions) : first recipe.positions ≤ i :=
  (List.min?_eq_some_iff.1 (min?_eq_first (List.ne_nil_of_mem hi))).2 i hi

theorem le_last (hi : i ∈ recipe.positions) : i ≤ last recipe.positions :=
  (List.max?_eq_some_iff.1 (max?_eq_last (List.ne_nil_of_mem hi))).2 i hi

theorem last_lt (h : recipe.positions ≠ []) : last recipe.positions < recipe.steps.length :=
  lt_length_of_mem_indices (last_mem h)

/-- The places from the first to the last one of the loop. -/
def span (recipe : Recipe) : List Nat :=
  List.range' (first recipe.positions)
    (last recipe.positions + 1 - first recipe.positions)

theorem mem_span : i ∈ span recipe ↔ first recipe.positions ≤ i ∧ i ≤ last recipe.positions := by
  rw [span, List.mem_range'_1]
  omega

def bodyPlaces (recipe : Recipe) : List Nat :=
  (span recipe).filter recipe.positions.contains

def gapPlaces (recipe : Recipe) : List Nat :=
  (span recipe).filter fun i => !recipe.positions.contains i

def postPlaces (recipe : Recipe) : List Nat :=
  List.range' (last recipe.positions + 1)
    (recipe.steps.length - (last recipe.positions + 1))

theorem mem_bodyPlaces : i ∈ bodyPlaces recipe ↔ i ∈ recipe.positions := by
  rw [bodyPlaces, List.mem_filter, List.contains_iff_mem, mem_span]
  exact and_iff_right_of_imp fun hi => ⟨first_le hi, le_last hi⟩

theorem mem_gapPlaces : i ∈ gapPlaces recipe ↔
    (first recipe.positions ≤ i ∧ i ≤ last recipe.positions) ∧ i ∉ recipe.positions := by
  rw [gapPlaces, List.mem_filter, mem_span, Bool.not_eq_true', ← Bool.not_eq_true,
    List.contains_iff_mem]

theorem mem_postPlaces : i ∈ postPlaces recipe ↔
    last recipe.positions < i ∧ i < recipe.steps.length := by
  rw [postPlaces, List.mem_range'_1]
  omega

/-- What stands before the loop, what it spans and what stands behind it. -/
theorem range_eq_append (h : recipe.positions ≠ []) :
    List.range recipe.steps.length =
      List.range (first recipe.positions) ++ span recipe ++ postPlaces recipe := by
  have hle := le_last (first_mem h)
  have hlt := last_lt h
  rw [span, postPlaces, List.range_eq_range', List.range_eq_range']
  generalize first recipe.positions = first at *
  generalize last recipe.positions = last at *
  have hspan : List.range' first (last + 1 - first) = List.range' (0 + first) (last + 1 - first) := by
    rw [Nat.zero_add]
  have hpost : List.range' (last + 1) (recipe.steps.length - (last + 1)) =
      List.range' (0 + (last + 1)) (recipe.steps.length - (last + 1)) := by
    rw [Nat.zero_add]
  rw [hspan, List.range'_append_1, Nat.add_sub_cancel' (by omega), hpost, List.range'_append_1,
    Nat.add_sub_cancel' (by omega)]

/-- A loop that names a step takes the steps at its places and leaves out the gaps. -/
theorem divides_ofPositions (h : recipe.positions ≠ []) :
    Divides recipe (List.range (first recipe.positions)) (bodyPlaces recipe) (postPlaces recipe)
      (gapPlaces recipe) (ofPositions recipe.steps recipe.positions)
      (unknownReports recipe ++ gapReports recipe) where
  groups := by
    have hpost : recipe.stepsAt (postPlaces recipe) =
        recipe.steps.drop (last recipe.positions + 1) := by
      rw [postPlaces, Recipe.stepsAt_range', List.take_of_length_le (by simp)]
    rw [ofPositions, stepsAt_range, hpost, map_filter_range]
    rfl
  increasing := by
    have hsub : (List.range (first recipe.positions) ++ bodyPlaces recipe ++
        postPlaces recipe).Sublist (List.range recipe.steps.length) := by
      rw [range_eq_append h]
      exact ((List.filter_sublist).append_left _).append_right _
    exact List.pairwise_lt_range.sublist hsub
  bounded i hi := by
    have hlast := last_lt h
    rw [List.mem_append, List.mem_append, List.mem_range, mem_bodyPlaces, mem_postPlaces] at hi
    rcases hi with (hpre | hbody) | hpost
    · have hfirst := le_last (first_mem h)
      omega
    · exact lt_length_of_mem_indices hbody
    · exact hpost.2
  mem_body i := mem_bodyPlaces.trans mem_positions_iff
  gaps_increasing := List.Pairwise.filter _ (List.pairwise_lt_range' ..)
  mem_gaps i := by
    have hlast := last_lt h
    rw [mem_gapPlaces, List.mem_append, List.mem_append, List.mem_range, mem_bodyPlaces,
      mem_postPlaces]
    by_cases hi : i ∈ recipe.positions
    · simp [hi]
    · simp only [hi, not_false_eq_true, and_true, or_false]
      omega
  inside i := by
    rw [mem_gapPlaces, mem_bodyPlaces]
    constructor
    · rintro ⟨⟨hfirst, hlast⟩, hi⟩
      refine ⟨hi, _, mem_bodyPlaces.2 (first_mem h), _, mem_bodyPlaces.2 (last_mem h),
        hfirst.lt_of_ne ?_, hlast.lt_of_ne ?_⟩
      · rintro rfl
        exact hi (first_mem h)
      · rintro rfl
        exact hi (last_mem h)
    · rintro ⟨hi, a, ha, b, hb, hai, hib⟩
      have hfirst := first_le (mem_bodyPlaces.1 ha)
      have hlast := le_last (mem_bodyPlaces.1 hb)
      exact ⟨⟨by omega, by omega⟩, hi⟩
  reported := by
    have hgaps := map_filter_range recipe recipe.positions fun i => !recipe.positions.contains i
    rw [gapPlaces, span, ← hgaps, List.map_map]
    rfl
  unlooped hunknown := absurd (positions_eq_nil_iff.2 hunknown) h
  distinct hids := by
    have hbody : recipe.looped.map (·.1) =
        recipe.steps.filter fun step => step.id.isAmong recipe.loopNames := by
      conv_rhs => rw [← List.zipIdx_map_fst 1 recipe.steps, List.filter_map]
      rfl
    rw [ofPositions, ← Recipe.looped_eq_range hids h, hbody]

/-! ## Other lists of names -/

theorem first_congr {positions others : List Nat} (h : ∀ i, i ∈ positions ↔ i ∈ others)
    (hne : positions ≠ []) : first positions = first others := by
  have hother : others ≠ [] := List.ne_nil_of_mem ((h _).1 (List.head_mem hne))
  have hfirst := List.min?_eq_some_iff.1 (min?_eq_first hne)
  have hleast := List.min?_eq_some_iff.1 (min?_eq_first hother)
  exact Nat.le_antisymm (hfirst.2 _ ((h _).2 hleast.1)) (hleast.2 _ ((h _).1 hfirst.1))

theorem last_congr {positions others : List Nat} (h : ∀ i, i ∈ positions ↔ i ∈ others)
    (hne : positions ≠ []) : last positions = last others := by
  have hother : others ≠ [] := List.ne_nil_of_mem ((h _).1 (List.head_mem hne))
  have hlast := List.max?_eq_some_iff.1 (max?_eq_last hne)
  have hmost := List.max?_eq_some_iff.1 (max?_eq_last hother)
  exact Nat.le_antisymm (hmost.2 _ ((h _).1 hlast.1)) (hlast.2 _ ((h _).2 hmost.1))

/-- The order of the places and how often each is listed make no difference. -/
theorem ofPositions_congr {positions others : List Nat} (h : ∀ i, i ∈ positions ↔ i ∈ others)
    (hne : positions ≠ []) : ofPositions steps positions = ofPositions steps others := by
  have hcontains : positions.contains = others.contains := by
    funext i
    rw [Bool.eq_iff_iff, List.contains_iff_mem, List.contains_iff_mem, h]
  rw [ofPositions, ofPositions, range, range, first_congr h hne, last_congr h hne, hcontains]

/-- The names of the loop that are names of steps decide the groups. -/
theorem groups_congr (recipe other : Recipe) (hsteps : other.steps = recipe.steps)
    (hnames : ∀ name, recipe.knowsStep name = true →
      (name ∈ other.loopNames ↔ name ∈ recipe.loopNames)) :
    groups other = groups recipe := by
  have hmem : ∀ i, i ∈ other.positions ↔ i ∈ recipe.positions := by
    intro i
    rw [Recipe.positions, Recipe.positions, indices, indices, hsteps, List.mem_filterMap,
      List.mem_filterMap]
    refine exists_congr fun name => and_congr_left fun hlast => hnames name ?_
    rw [← Bool.not_eq_false', ← isNone_lastIndex?, hlast]
    simp
  have hnil : other.positions = [] ↔ recipe.positions = [] := by
    rw [List.eq_nil_iff_forall_not_mem, List.eq_nil_iff_forall_not_mem]
    exact forall_congr' fun i => not_congr (hmem i)
  unfold groups
  by_cases hnone : recipe.positions = []
  · rw [if_pos hnone, if_pos (hnil.2 hnone), hsteps]
  · rw [if_neg hnone, if_neg (mt hnil.1 hnone), hsteps,
      ofPositions_congr hmem (mt hnil.1 hnone)]

/--
A recipe whose steps can be told apart by their ids has a partition into the
places before the loop, in it and behind it; a loop that lists the same steps
in another order, repeatedly or among other unknown names has the same one.
-/
theorem exists_divides_ofRecipe (h : recipe.Divisible) :
    ∃ partition reports, ofRecipe recipe = .ok (partition, reports) ∧
      (∃ pre body post gaps, Divides recipe pre body post gaps partition reports) ∧
      ∀ loop : Loop, recipe.Relists loop →
        ∃ others, ofRecipe { recipe with loop := some loop } = .ok (partition, others) := by
  refine ⟨groups recipe, reports recipe, ofRecipe_of_divisible h, ?_, fun loop hloop => ?_⟩
  · by_cases hnil : recipe.positions = []
    · rw [groups, reports, if_pos hnil, if_pos hnil]
      exact ⟨_, _, _, _, divides_whole hnil⟩
    · rw [groups, reports, if_neg hnil, if_neg hnil]
      exact ⟨_, _, _, _, divides_ofPositions hnil⟩
  · rw [ofRecipe_of_divisible hloop.1,
      groups_congr recipe { recipe with loop := some loop } rfl hloop.2]
    exact ⟨_, rfl⟩

/-- A step with an id and nothing to do. -/
def idleStep (id : Value) : Step := { (default : Step) with id }

/-- A loop that names its steps backwards, one of them twice, and an unknown one. -/
def gappedRecipe : Recipe :=
  { (default : Recipe) with
    id := .text "release"
    steps := ["start", "plan", "draft", "check", "review"].map fun id => idleStep (.text id)
    loop := some ⟨["check", "ghost", "plan", "check"], 2, none⟩ }

theorem exists_divides_ofRecipe_gapped :
    gappedRecipe.Divisible ∧
      (∃ pre body post gaps, Divides gappedRecipe pre body post gaps
        ⟨[idleStep (.text "start")], [idleStep (.text "plan"), idleStep (.text "check")],
          [idleStep (.text "review")]⟩
        [unknownWarning (.text "release") "ghost",
          gapWarning (.text "release") (idleStep (.text "draft"))]) ∧
      ∀ loop : Loop, gappedRecipe.Relists loop →
        ∃ others, ofRecipe { gappedRecipe with loop := some loop } =
          .ok (⟨[idleStep (.text "start")], [idleStep (.text "plan"), idleStep (.text "check")],
            [idleStep (.text "review")]⟩, others) := by
  have hkeys : gappedRecipe.Divisible := .inr (by decide)
  obtain ⟨partition, reports, hpartition, hdivides, hloops⟩ := exists_divides_ofRecipe hkeys
  cases hpartition
  exact ⟨hkeys, hdivides, hloops⟩

/-- The ids are kept as keys, which a list cannot be, and the loop is not read at all. -/
theorem ofRecipe_listed_id :
    ofRecipe { gappedRecipe with steps := [idleStep (.list [.text "plan"])] } =
      .error .wrongType :=
  ofRecipe_of_not_divisible (by
    rintro (hnames | hkeys)
    · exact absurd hnames (by decide)
    · exact absurd (hkeys _ (List.mem_singleton_self _)) (by decide))

end Partition

end Playbook
