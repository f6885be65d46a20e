import Mathlib.Data.List.Nodup
import Playbook.Proofs.Shell.Assignment
import Playbook.Recipe.Compilation

/-!
# Variables of a recipe

Each key of a recipe or of the context of its feature is declared once, with
the value of the context if there is one. The declarations are carried out in
their order, so a key comes out with its own default, filled in, if no earlier
key has its variable and the keys that its default refers to come earlier.
-/

namespace Playbook.Setting

open Shell Shell.Node Template

variable {setting : Setting} {recipe : Recipe}

/-! ## The table of defaults -/

private theorem lookup_cons_eq_ite (entry : String × String) (entries : List (String × String))
    (key : String) : (entry :: entries).lookup key =
      if key = entry.1 then some entry.2 else entries.lookup key := by
  obtain ⟨name, value⟩ := entry
  by_cases h : key = name <;> simp [List.lookup_cons, beq_eq_decide, h]

private theorem lookup_eq_some_iff_mem {entries : List (String × String)} {key value : String}
    (h : (entries.map (·.1)).Nodup) :
    entries.lookup key = some value ↔ (key, value) ∈ entries := by
  induction entries with
  | nil => simp
  | cons entry entries ih =>
      obtain ⟨hentry, hentries⟩ := List.nodup_cons.1 h
      rw [lookup_cons_eq_ite, List.mem_cons, Prod.ext_iff]
      split
      · rename_i hkey
        have hother : (key, value) ∉ entries :=
          fun hmem => hentry (List.mem_map.2 ⟨_, hmem, hkey⟩)
        rw [Option.some_inj, or_iff_left hother]
        exact ⟨fun hvalue => ⟨hkey, hvalue.symm⟩, fun hentry => hentry.2.symm⟩
      · rename_i hkey
        simp [hkey, ih hentries]

theorem map_fst_put (table : List (String × String)) (key value : String) :
    (put table key value).map (·.1) =
      if key ∈ table.map (·.1) then table.map (·.1) else table.map (·.1) ++ [key] := by
  induction table with
  | nil => simp [put]
  | cons entry table ih =>
      by_cases hkey : entry.1 = key
      · simp [put, hkey]
      · by_cases hmem : key ∈ table.map (·.1) <;> simp_all [put, eq_comm]

theorem lookup_put (table : List (String × String)) (key value other : String) :
    (put table key value).lookup other = if other = key then some value else table.lookup other := by
  induction table with
  | nil => exact lookup_cons_eq_ite (key, value) [] other
  | cons entry table ih =>
      by_cases hkey : entry.1 = key
      · by_cases hother : other = key <;> simp [put, lookup_cons_eq_ite, hkey, hother]
      · by_cases hother : other = entry.1
        · simp [put, lookup_cons_eq_ite, hkey, hother]
        · simp [put, lookup_cons_eq_ite, hkey, hother, ih]

theorem lookup_foldl_put (entries table : List (String × String)) (key : String) :
    (entries.foldl (fun table entry => put table entry.1 entry.2) table).lookup key =
      (entries.reverse.lookup key).or (table.lookup key) := by
  induction entries generalizing table with
  | nil => simp
  | cons entry entries ih =>
      rw [List.foldl_cons, ih, lookup_put, List.reverse_cons, List.lookup_append, Option.or_assoc,
        lookup_cons_eq_ite, List.lookup_nil]
      congr
      split <;> rfl

/-- The default of a key: that of the context, or else that of the recipe; the last one counts. -/
def ownDefault (setting : Setting) (recipe : Recipe) (key : String) : Option String :=
  (setting.context.reverse.lookup key).or (recipe.defaults.reverse.lookup key)

theorem nodup_variableDefaults (setting : Setting) (recipe : Recipe) :
    ((setting.variableDefaults recipe).map (·.1)).Nodup := by
  apply List.foldlRecOn (motive := fun table : List (String × String) => (table.map (·.1)).Nodup)
  · exact List.nodup_nil
  · intro table htable entry _
    rw [map_fst_put]
    split
    · exact htable
    · rename_i hkey
      exact List.Nodup.append htable (List.nodup_singleton _) (by simpa using hkey)

/-- The table has the default of each key, and nothing else. -/
theorem mem_variableDefaults {key value : String} :
    (key, value) ∈ setting.variableDefaults recipe ↔
      setting.ownDefault recipe key = some value := by
  rw [← lookup_eq_some_iff_mem (nodup_variableDefaults setting recipe), variableDefaults,
    lookup_foldl_put, List.reverse_append, List.lookup_append, List.lookup_nil, Option.or_none]
  rfl

/-! ## Declarations -/

/-- The variable of a key. -/
def shellName (key : String) : List Char := variableNameChars key.toList

/-- What a declaration does to the variables. -/
def declared (env : Environment) (entry : String × String) : Environment :=
  env.orElse (shellName entry.1) (expanded env entry.2.toList)

/-- A default without a dollar sign, for a key that has characters. -/
def Declarable (entry : String × String) : Prop := entry.1 ≠ "" ∧ '$' ∉ entry.2.toList

theorem assignAll_declaration {entry : String × String} (h : Declarable entry)
    (env : Environment) (context : List (String × String)) (nodes : List Node) :
    assignAll env (declaration context entry :: nodes) = assignAll (declared env entry) nodes := by
  have hchars : ∀ c ∈ shellName entry.1, isVariableChar c := fun _ => isVariableChar_of_mem
  have hname : shellName entry.1 ≠ [] :=
    variableNameChars_ne_nil fun hnil => h.1 (String.toList_eq_nil_iff.1 hnil)
  rw [declaration, assignAll]
  generalize hnote : (if (context.lookup entry.1).isSome then "  # feature context" else "") = note
  have hcomment : note.toList = [] ∨ [' ', ' ', '#'] <+: note.toList := by
    subst hnote
    split <;> decide
  have htext : (": $\x7b" ++ variableName entry.1 ++ ":=\"" ++ substituteAll (escape entry.2) ++
      "\"\x7d" ++ note).toList = [':', ' ', '$', '{'] ++ (shellName entry.1 ++
        ([':', '=', '"'] ++ (written entry.2.toList ++ '"' :: (['}'] ++ note.toList)))) := by
    simp [variableName, shellName, toList_substituteAll_escape]
  rw [htext, assignment?_written hchars hname h.2 hcomment env]
  rfl

theorem assignAll_declarations (h : ∀ entry ∈ setting.variableDefaults recipe, Declarable entry)
    (env : Environment) :
    assignAll env (setting.declarations recipe) =
      some ((setting.variableDefaults recipe).foldl declared env) := by
  have hmap (entries : List (String × String)) (hentries : ∀ entry ∈ entries, Declarable entry) :
      assignAll env (entries.map (declaration setting.context) ++ [.blank]) =
        some (entries.foldl declared env) := by
    induction entries generalizing env with
    | nil => rfl
    | cons entry entries ih =>
        obtain ⟨hentry, hrest⟩ := List.forall_mem_cons.1 hentries
        rw [List.map_cons, List.cons_append, assignAll_declaration hentry, ih _ hrest]
        rfl
  unfold declarations
  dsimp only
  split
  · rename_i hempty
    rw [List.isEmpty_iff.1 hempty]
    rfl
  · exact hmap _ h

theorem foldl_declared_of_ne {entries : List (String × String)} {name : List Char}
    (h : ∀ entry ∈ entries, shellName entry.1 ≠ name) (env : Environment) :
    entries.foldl declared env name = env name := by
  induction entries generalizing env with
  | nil => rfl
  | cons entry entries ih =>
      obtain ⟨hentry, hrest⟩ := List.forall_mem_cons.1 h
      rw [List.foldl_cons, ih hrest, declared, Environment.orElse_of_ne hentry.symm]

theorem foldl_declared_of_filled {entries : List (String × String)} {name : List Char}
    {env : Environment} (h : env name ≠ []) : entries.foldl declared env name = env name := by
  induction entries generalizing env with
  | nil => rfl
  | cons entry entries ih =>
      have hkept : declared env entry name = env name := Environment.orElse_of_filled h
      rw [List.foldl_cons, ih (hkept ▸ h), hkept]

/-- A key comes out with its own default if the declarations around it leave its variable alone. -/
theorem foldl_declared_eq {before behind : List (String × String)} {key default : String}
    (hbefore : ∀ entry ∈ before, shellName entry.1 ≠ shellName key)
    (hknown : ∀ name ∈ namesIn default.toList, ∀ entry ∈ (key, default) :: behind,
      shellName entry.1 ≠ variableNameChars name)
    {final : Environment}
    (hfinal : (before ++ (key, default) :: behind).foldl declared .unset = final)
    (hbehind : expanded final default.toList ≠ [] ∨
      ∀ entry ∈ behind, shellName entry.1 ≠ shellName key) :
    final (shellName key) = expanded final default.toList := by
  rw [List.foldl_append] at hfinal
  generalize henv : before.foldl declared .unset = env at hfinal
  -- What the default refers to does not change any more.
  have hexpanded : expanded env default.toList = expanded final default.toList := by
    apply expanded_congr
    intro name hname
    rw [← hfinal, foldl_declared_of_ne (hknown name hname)]
  have hempty : env (shellName key) = [] := by
    rw [← henv, foldl_declared_of_ne hbefore]
    rfl
  have hown : declared env (key, default) (shellName key) = expanded final default.toList := by
    rw [← hexpanded]
    exact Environment.orElse_self hempty
  rw [← hown, ← hfinal, List.foldl_cons]
  rcases hbehind with hfilled | halone
  · exact foldl_declared_of_filled (hown ▸ hfilled)
  · exact foldl_declared_of_ne halone _

/--
The declarations of defaults without dollar signs leave a key with its own
default, each reference replaced by what its key comes out with, if no earlier
key has its variable and every key with the variable of a reference comes
earlier. If the value is empty, no later key may have the variable either.
-/
theorem final_of_declarations (h : ∀ entry ∈ setting.variableDefaults recipe, Declarable entry) :
    ∃ final, assignAll .unset (setting.declarations recipe) = some final ∧
      ∀ before key default behind,
        setting.variableDefaults recipe = before ++ (key, default) :: behind →
        (∀ entry ∈ before, shellName entry.1 ≠ shellName key) →
        (∀ name ∈ namesIn default.toList, ∀ entry ∈ (key, default) :: behind,
          shellName entry.1 ≠ variableNameChars name) →
        (expanded final default.toList ≠ [] ∨
          ∀ entry ∈ behind, shellName entry.1 ≠ shellName key) →
        setting.ownDefault recipe key = some default ∧
          final (shellName key) = expanded final default.toList := by
  refine ⟨_, assignAll_declarations h .unset, ?_⟩
  intro before key default behind htable hbefore hknown hbehind
  constructor
  · rw [← mem_variableDefaults, htable]
    exact List.mem_append_right _ List.mem_cons_self
  · rw [htable] at hbehind ⊢
    exact foldl_declared_eq hbefore hknown rfl hbehind

/-- A recipe with some defaults. -/
def withDefaults (defaults : List (String × String)) : Recipe :=
  { (default : Recipe) with id := .text "greet", defaults }

def bareSetting : Setting := ⟨none, none, "docs", "logs", Registry.builtIn⟩

private theorem segments_name :
    segments "{{name}}".toList = [.placeholder "name".toList "{{name}}".toList] := by
  have hwrites : Writes "name".toList "{{name}}".toList :=
    ⟨[], [], by simp, by simp, List.all_eq_true.1 (by decide), by decide, rfl⟩
  simpa using segments_append_of_writes hwrites []

private theorem namesIn_name : namesIn "{{name}}".toList = ["name".toList] := by
  rw [namesIn, segments_name]
  rfl

private theorem expanded_name (env : Environment) :
    expanded env "{{name}}".toList = env "NAME".toList := by
  rw [expanded, replace, segments_name]
  exact List.append_nil _

private theorem segments_of_plain {text : List Char} (h : '{' ∉ text) :
    segments text = text.map .literal := by
  simpa using inert_of_forall_ne (fun c hc heq => h (heq ▸ hc)) []

private theorem namesIn_of_plain {text : List Char} (h : '{' ∉ text) : namesIn text = [] := by
  simp [namesIn, segments_of_plain h, List.filterMap_map, Function.comp_def]

private theorem expanded_of_plain (env : Environment) (text : List Char)
    (h : '{' ∉ text) : expanded env text = text := by
  simp [expanded, replace, segments_of_plain h, List.flatMap_map, Segment.replaced]

theorem final_of_declarations_greeting :
    let recipe := withDefaults [("name", "Ann"), ("greeting", "{{name}}")]
    (∀ entry ∈ bareSetting.variableDefaults recipe, Declarable entry) ∧
      (∀ entry ∈ [("name", "Ann")], shellName entry.1 ≠ shellName "greeting") ∧
      (∀ name ∈ namesIn "{{name}}".toList, ∀ entry ∈ [("greeting", "{{name}}")],
        shellName entry.1 ≠ variableNameChars name) ∧
      ∃ final, assignAll .unset (bareSetting.declarations recipe) = some final ∧
        final (shellName "greeting") = "Ann".toList := by
  intro recipe
  have htable : bareSetting.variableDefaults recipe =
      [("name", "Ann")] ++ ("greeting", "{{name}}") :: [] := rfl
  have hplain : ∀ entry ∈ bareSetting.variableDefaults recipe, Declarable entry := by
    rw [htable]
    simp [Declarable]
  have hbefore : ∀ entry ∈ [("name", "Ann")], shellName entry.1 ≠ shellName "greeting" := by
    decide
  have hknown : ∀ name ∈ namesIn "{{name}}".toList, ∀ entry ∈ [("greeting", "{{name}}")],
      shellName entry.1 ≠ variableNameChars name := by
    rw [namesIn_name]
    decide
  refine ⟨hplain, hbefore, hknown, ?_⟩
  obtain ⟨final, hrun, hfinal⟩ := final_of_declarations hplain
  have hname : final (shellName "name") = expanded final "Ann".toList := by
    refine (hfinal [] "name" "Ann" _ htable (by simp) ?_ ?_).2
    · rw [namesIn_of_plain (by decide)]
      simp
    · rw [expanded_of_plain _ _ (by decide)]
      exact .inl (by decide)
  have hgreeting := (hfinal _ _ _ _ htable hbefore hknown (.inr (by simp))).2
  refine ⟨final, hrun, ?_⟩
  rw [hgreeting, expanded_name]
  exact hname.trans (expanded_of_plain final _ (by decide))

/-- Defaults that refer to declared keys only, and in no circle. -/
structure Referring (table : List (String × String)) : Prop where
  declarable : ∀ entry ∈ table, Declarable entry
  declared : ∀ entry ∈ table, ∀ name ∈ namesIn entry.2.toList, ∃ other ∈ table,
    other.1.toList = name
  ranked : ∃ rank : List Char → Nat, ∀ entry ∈ table, ∀ name ∈ namesIn entry.2.toList,
    rank name < rank entry.1.toList

/--
A reference to a key that is declared later finds its variable unset, and of
two keys with one variable the later one finds the value of the earlier one.
-/
theorem final_of_late_or_like_named_declarations :
    let late := withDefaults [("greeting", "{{name}}"), ("name", "Ann")]
    let alike := withDefaults [("base-url", "x"), ("base_url", "y")]
    (Referring (bareSetting.variableDefaults late) ∧
      ∃ final, assignAll .unset (bareSetting.declarations late) = some final ∧
        final (shellName "greeting") ≠ expanded final "{{name}}".toList) ∧
    (Referring (bareSetting.variableDefaults alike) ∧
      ∃ final, assignAll .unset (bareSetting.declarations alike) = some final ∧
        final (shellName "base_url") ≠ expanded final "y".toList) := by
  intro late alike
  have hlate : bareSetting.variableDefaults late = [("greeting", "{{name}}"), ("name", "Ann")] := rfl
  have halike : bareSetting.variableDefaults alike = [("base-url", "x"), ("base_url", "y")] := rfl
  have hann : namesIn "Ann".toList = [] := namesIn_of_plain (by decide)
  have hx : namesIn "x".toList = [] := namesIn_of_plain (by decide)
  have hy : namesIn "y".toList = [] := namesIn_of_plain (by decide)
  have hfirst : Referring (bareSetting.variableDefaults late) := by
    rw [hlate]
    refine ⟨by simp [Declarable], ?_, fun name => if name = "name".toList then 0 else 1, ?_⟩
    · simp only [List.forall_mem_cons, namesIn_name, hann]
      simp
    · simp only [List.forall_mem_cons, namesIn_name, hann]
      simp
  have hsecond : Referring (bareSetting.variableDefaults alike) := by
    rw [halike]
    refine ⟨by simp [Declarable], ?_, fun _ => 0, ?_⟩
    · simp only [List.forall_mem_cons, hx, hy]
      simp
    · simp only [List.forall_mem_cons, hx, hy]
      simp
  refine ⟨⟨hfirst, _, assignAll_declarations hfirst.declarable .unset, ?_⟩,
    hsecond, _, assignAll_declarations hsecond.declarable .unset, ?_⟩
  · rw [hlate, expanded_name]
    simp only [List.foldl_cons, List.foldl_nil, Setting.declared, expanded_name,
      expanded_of_plain _ "Ann".toList (by decide)]
    decide
  · rw [halike, expanded_of_plain _ _ (by decide)]
    simp only [List.foldl_cons, List.foldl_nil, Setting.declared,
      expanded_of_plain _ "x".toList (by decide), expanded_of_plain _ "y".toList (by decide)]
    decide

end Playbook.Setting
