import Mathlib.Data.List.TakeWhile
import Playbook.Generation
import Playbook.Proofs.Resolution.Admission
import Playbook.Proofs.Store.Calls
import Playbook.Proofs.Store.Items

/-!
# Prompts by id and by place

The lists of a project are compared with three names of a prompt: its place,
the last name of the place, and the last name of what it was asked for by. A
place is no key to the id of the prompt that stands there, so a prompt that is
asked for by its place may be known under other names than by its id.
-/

namespace Playbook

open Work

theorem Text.afterLast_afterLast (separator : Char) (text : String) :
    afterLast separator (afterLast separator text) = afterLast separator text := by
  simp only [afterLast, String.toList_ofList, List.reverse_reverse, List.takeWhile_idem]

namespace Admission

variable {lists : Admission} {matched other : String → Bool}

/-- Only what the entries of the lists are compared with counts. -/
theorem lets_congr (h : ∀ entry, matched entry = other entry) :
    lists.lets matched = lists.lets other := by
  rw [funext h]

theorem lets_singleton (entry : String) : lets ⟨[entry], []⟩ matched = matched entry := by
  simp [lets]

end Admission

namespace Admissions

variable {paths : List (String × String)} {name id path entry : String}

/-- Where a prompt is thought to be that is asked for by a name. -/
def placeOf (paths : List (String × String)) (name : String) : String :=
  firstFilled [none, paths.lookup name] name

/-- The entries that stand for a prompt that is asked for by a name. -/
def namesFor (paths : List (String × String)) (name : String) : List String :=
  [placeOf paths name, Text.afterLast '/' name, Text.afterLast '/' (placeOf paths name)]

theorem placeOf_eq :
    placeOf paths name = ((paths.lookup name).filter fun path => !path.isEmpty).getD name := by
  cases hfound : paths.lookup name with
  | none => simp [placeOf, firstFilled, hfound]
  | some path =>
      by_cases hpath : path = "" <;> simp [placeOf, firstFilled, Option.filter, hfound, hpath]

theorem placeOf_of_lookup (h : paths.lookup name = some path) (hfilled : path ≠ "") :
    placeOf paths name = path := by
  simp [placeOf_eq, Option.filter, h, hfilled]

/-- Only the empty name has an empty place. -/
theorem eq_empty_of_placeOf (h : placeOf paths name = "") : name = "" := by
  rw [placeOf_eq] at h
  cases hfound : (paths.lookup name).filter fun path => !path.isEmpty with
  | none => rwa [hfound] at h
  | some path =>
      have hfilled := Option.filter_eq_some_iff.1 hfound
      rw [hfound, Option.getD_some] at h
      simp [h] at hfilled

theorem promptMatches_iff :
    promptMatches (Text.afterLast '/' name) (placeOf paths name) entry = true ↔
      entry ∈ namesFor paths name := by
  have hplace : (if (placeOf paths name).isEmpty then Text.afterLast '/' name
      else placeOf paths name) = placeOf paths name := by
    split
    · rename_i hempty
      rw [String.isEmpty_iff] at hempty
      rw [hempty, eq_empty_of_placeOf hempty]
      rfl
    · rfl
  rw [promptMatches, hplace]
  simp only [namesFor, Bool.or_eq_true, beq_iff_eq, List.mem_cons, List.not_mem_nil, or_false,
    or_assoc, eq_comm (a := entry)]

/-- The lists are compared with the names of the prompt, and nothing else is looked at. -/
theorem exec_admitsPrompt (project : Option Project) (name : String) (admissions : Admissions)
    (log : Log) :
    exec (admitsPrompt name project none) (admissions, log) =
      ((exec (lists project .prompts) (admissions, log)).1.map fun lists =>
          lists.lets (namesFor admissions.promptPaths name).contains,
        (exec (lists project .prompts) (admissions, log)).2) := by
  have hmatched (lists : Admission) :
      lists.lets (promptMatches (Text.afterLast '/' name)
          (placeOf admissions.promptPaths name)) =
        lists.lets (namesFor admissions.promptPaths name).contains := by
    apply Admission.lets_congr
    intro entry
    rw [Bool.eq_iff_iff, promptMatches_iff, List.contains_iff_mem]
  rw [admitsPrompt, exec_bind]
  by_cases hreport : Reportable project .prompts
  · rw [exec_lists_eq hreport]
    dsimp only
    rw [exec_bind_ok (exec_state _ _), exec_pure]
    exact congrArg (fun lets => (Except.ok lets, _)) (hmatched _)
  · rw [exec_lists_of_not_reportable hreport]
    rfl

/-- A project with one entry in its whitelist of prompts, and no other list. -/
def projectWith (entry : String) : Project :=
  { (default : Project) with
    aiTools := { (default : AiTools) with prompts := ⟨[entry], []⟩ } }

theorem admitsPrompt_projectWith (entry name : String) (admissions : Admissions) :
    ((admitsPrompt name (some (projectWith entry)) none).runFrom admissions).1 =
      .ok ((namesFor admissions.promptPaths name).contains entry) := by
  have hreport : Reportable (some (projectWith entry)) .prompts := by
    rintro p ⟨⟩ hconflict
    cases hconflict
  rw [runFrom_eq, exec_admitsPrompt, exec_lists_eq hreport]
  exact congrArg Except.ok (Admission.lets_singleton entry)

/-- Two names are decided alike by all projects exactly if the same entries stand for them. -/
theorem admitsPrompt_eq_iff (id path : String) :
    (∀ project reported, (admitsPrompt id project none).runFrom ⟨paths, reported⟩ =
        (admitsPrompt path project none).runFrom ⟨paths, reported⟩) ↔
      ∀ entry, entry ∈ namesFor paths id ↔ entry ∈ namesFor paths path := by
  constructor
  · intro h entry
    have heq := congrArg Prod.fst (h (some (projectWith entry)) [])
    rw [admitsPrompt_projectWith, admitsPrompt_projectWith, Except.ok.injEq, Bool.eq_iff_iff,
      List.contains_iff_mem, List.contains_iff_mem] at heq
    exact heq
  · intro h project reported
    have hcontains : (namesFor paths id).contains = (namesFor paths path).contains := by
      funext entry
      rw [Bool.eq_iff_iff, List.contains_iff_mem, List.contains_iff_mem, h entry]
    rw [runFrom_eq, runFrom_eq, exec_admitsPrompt, exec_admitsPrompt, hcontains]

/-- The same entries stand for a prompt and for its place in two cases. -/
theorem namesFor_alike_iff (h : paths.lookup id = some path) (hempty : path = "" → id = "") :
    (∀ entry, entry ∈ namesFor paths id ↔ entry ∈ namesFor paths path) ↔
      (placeOf paths path = path ∧ Text.afterLast '/' id = Text.afterLast '/' path) ∨
        (placeOf paths path = Text.afterLast '/' id ∧ Text.afterLast '/' path = path) := by
  by_cases hfilled : path = ""
  · obtain rfl := hempty hfilled
    subst hfilled
    have hplace : placeOf paths "" = "" := by simp [placeOf_eq, Option.filter, h]
    exact ⟨fun _ => .inl ⟨hplace, rfl⟩, fun _ _ => Iff.rfl⟩
  have hlast := Text.afterLast_afterLast '/'
  simp only [namesFor, placeOf_of_lookup h hfilled, List.mem_cons, List.not_mem_nil, or_false]
  generalize placeOf paths path = place
  constructor
  · intro hsame
    have hbase : Text.afterLast '/' path = path → place ≠ path →
        place = Text.afterLast '/' id ∧ Text.afterLast '/' path = path := by
      intro hpath hne
      refine ⟨?_, hpath⟩
      rcases (hsame place).2 (.inl rfl) with heq | heq | heq
      · exact absurd heq hne
      · exact heq
      · exact absurd (heq.trans hpath) hne
    by_cases hplace : place = path
    · left
      refine ⟨hplace, ?_⟩
      rcases (hsame (Text.afterLast '/' id)).1 (.inr (.inl rfl)) with heq | heq | heq
      · rw [← hlast id, heq, hplace]
      · exact heq
      · rw [heq, hplace]
    · right
      rcases (hsame path).1 (.inl rfl) with heq | heq | heq
      · exact absurd heq.symm hplace
      · exact hbase heq.symm hplace
      · exact hbase (by rw [heq, hlast]) hplace
  · rintro (⟨rfl, hid⟩ | ⟨rfl, hpath⟩) entry
    · rw [hid]
    · rw [hlast, hpath]
      constructor <;> rintro (h | h | h) <;> simp [h]

end Admissions

/-! ## The prompts of a store -/

namespace Store

variable {store : Store} {admissions : Admissions} {rest : Store × Log} {id path : String}

theorem exists_item_of_admissions (h : Store.admissions.runFrom store = (.ok admissions, rest))
    (hstored : admissions.promptPaths.lookup id = some path) :
    ∃ items log, Kind.prompts.items.runFrom store = (.ok items, log) ∧
      ∃ item ∈ items, item.1 = .text id ∧ Prompt.sourcePath item.2.2 = .text path := by
  obtain ⟨found, log, hpaths, hmore⟩ := of_exec_bind_ok h
  obtain ⟨items, log', hitems, hfound⟩ := of_exec_bind_ok hpaths
  cases hmore
  cases hfound
  refine ⟨items, _, hitems, ?_⟩
  obtain ⟨before, after, hsplit, -⟩ := List.lookup_eq_some_iff.1 hstored
  have hmem : (id, path) ∈ before ++ (id, path) :: after := List.mem_append_cons_self
  rw [← hsplit] at hmem
  obtain ⟨pair, hpair, heq⟩ := List.mem_filterMap.1 hmem
  obtain ⟨item, hitem, rfl⟩ := List.mem_map.1 hpair
  refine ⟨item, hitem, ?_⟩
  split at heq
  · rename_i hfst
    cases heq
    exact Prod.mk.inj hfst
  · cases heq

/-- Without a place a prompt would have its id there. -/
theorem Faithful.id_eq_empty (faithful : store.Faithful)
    (h : Store.admissions.runFrom store = (.ok admissions, rest))
    (hstored : admissions.promptPaths.lookup id = some path) (hempty : path = "") : id = "" := by
  obtain ⟨items, _, hitems, item, hitem, hid, hplace⟩ := exists_item_of_admissions h hstored
  obtain ⟨file, ⟨v, -, hparse⟩, hkey, -⟩ :=
    Kind.exists_yields_of_reading (faithful.reading hitems) hitem
  rw [Prompt.sourcePath_eq_of_ofValue hparse, hempty] at hplace
  split at hplace
  · exact Value.text.inj (hid.symm.trans (hkey.trans hplace))
  · rename_i hgiven
    exact absurd (congrArg String.isEmpty (Value.text.inj hplace)) hgiven

/--
All projects decide on a stored prompt alike by its id and by its place, exactly
if both end in the same name and the place is not the id of a prompt that stands
elsewhere. There is one other case: the place is a plain name that is the id of a
prompt, and that prompt stands at the last name of the id.
-/
theorem admitsPrompt_by_place_iff (faithful : store.Faithful)
    (h : Store.admissions.runFrom store = (.ok admissions, rest))
    (hstored : admissions.promptPaths.lookup id = some path) :
    (∀ project reported,
        (Admissions.admitsPrompt id project none).runFrom ⟨admissions.promptPaths, reported⟩ =
          (Admissions.admitsPrompt path project none).runFrom ⟨admissions.promptPaths, reported⟩) ↔
      (Admissions.placeOf admissions.promptPaths path = path ∧
          Text.afterLast '/' id = Text.afterLast '/' path) ∨
        (Admissions.placeOf admissions.promptPaths path = Text.afterLast '/' id ∧
          Text.afterLast '/' path = path) := by
  rw [Admissions.admitsPrompt_eq_iff]
  exact Admissions.namesFor_alike_iff hstored (faithful.id_eq_empty h hstored)

/-- A prompt with an id of its own in a file two directories down. -/
def extractTree (id : String) : Tree := .directory [("03_prompts", .directory
  [("refactor", .directory [("extract-method.yml", ofFields
    [("id", .text id), ("content", .text "Extract a method.")])])])]

theorem exists_admissions_of_paths {paths : List (String × String)}
    (h : (Store.admissions.runFrom store).1.toOption.map (·.promptPaths) = some paths) :
    ∃ admissions rest, Store.admissions.runFrom store = (.ok admissions, rest) ∧
      admissions.promptPaths = paths := by
  rcases hrun : Store.admissions.runFrom store with ⟨_ | admissions, rest⟩
  · rw [hrun] at h
    cases h
  · rw [hrun] at h
    exact ⟨admissions, rest, rfl, Option.some.inj h⟩

theorem admitsPrompt_by_place_iff_extract :
    let store := ofSettings (extractTree "extract-method") shopSettings
    let path := "refactor/extract-method"
    store.Faithful ∧
      ∃ admissions rest, Store.admissions.runFrom store = (.ok admissions, rest) ∧
        admissions.promptPaths.lookup "extract-method" = some path ∧ ∀ project reported,
          (Admissions.admitsPrompt "extract-method" project none).runFrom
              ⟨admissions.promptPaths, reported⟩ =
            (Admissions.admitsPrompt path project none).runFrom
              ⟨admissions.promptPaths, reported⟩ := by
  intro store path
  obtain ⟨admissions, rest, hrun, hpaths⟩ := exists_admissions_of_paths
    (show (Store.admissions.runFrom store).1.toOption.map (·.promptPaths) =
      some [("extract-method", path)] by decide +kernel)
  have hstored : admissions.promptPaths.lookup "extract-method" = some path := by
    rw [hpaths]
    decide
  refine ⟨faithful_ofSettings _ _, admissions, rest, hrun, hstored, ?_⟩
  refine (admitsPrompt_by_place_iff (faithful_ofSettings _ _) hrun hstored).2 (.inl ⟨?_, ?_⟩)
  · rw [hpaths]
    decide
  · decide +kernel

/-- A prompt whose id is not the last name of its place is not let in by its place. -/
theorem not_forall_admitsPrompt_by_place :
    ¬ ∀ (store : Store) (admissions : Admissions) (rest : Store × Log) (id path : String)
        (project : Option Project), store.Faithful →
      Store.admissions.runFrom store = (.ok admissions, rest) →
        admissions.promptPaths.lookup id = some path →
          ((Admissions.admitsPrompt id project none).runFrom admissions).1 =
            ((Admissions.admitsPrompt path project none).runFrom admissions).1 := by
  intro hall
  let store := ofSettings (extractTree "extract") shopSettings
  obtain ⟨admissions, rest, hrun, hpaths⟩ := exists_admissions_of_paths
    (show (Store.admissions.runFrom store).1.toOption.map (·.promptPaths) =
      some [("extract", "refactor/extract-method")] by decide +kernel)
  have heq := hall store admissions rest "extract" "refactor/extract-method"
    (some (Admissions.projectWith "extract")) (faithful_ofSettings _ _) hrun (by rw [hpaths]; rfl)
  rw [Admissions.admitsPrompt_projectWith, Admissions.admitsPrompt_projectWith, hpaths] at heq
  exact absurd (Except.ok.inj heq) (by decide +kernel)

end Store

end Playbook
