import Playbook.Proofs.Recipe.Substitution
import Playbook.Proofs.Template.Braced

/-!
# Keys that are written as placeholders

A key has its references put in for it where it stands in braces, if that
makes a placeholder of a declared name: it has to consist of the characters of
names, but for blanks around them that the name does without. Any other key
stays in its braces wherever a task has it so.
-/

namespace Playbook

open Template

theorem Shell.referring_reference (name : List Char) :
    Referring (reference (variableNameChars name)) := by
  have hplain : '{' ∉ variableNameChars name ++ ['}'] := by
    intro hmem
    rcases List.mem_append.1 hmem with hmem | hmem
    · cases isVariableChar_of_mem hmem
    · simp at hmem
  obtain ⟨c, more, hbehind⟩ : ∃ c more, variableNameChars name ++ ['}'] = c :: more :=
    List.exists_cons_of_ne_nil (by simp)
  exact ⟨c, more, congrArg ('$' :: '{' :: ·) hbehind, hbehind ▸ hplain⟩

namespace Setting

open Shell

variable {setting : Setting} {recipe : Recipe}

theorem mem_map_fst_foldl_put {entries table : List (String × String)} {key : String} :
    key ∈ (entries.foldl (fun table entry => put table entry.1 entry.2) table).map (·.1) ↔
      key ∈ table.map (·.1) ∨ key ∈ entries.map (·.1) := by
  induction entries generalizing table with
  | nil => simp
  | cons entry entries ih =>
      have hput : key ∈ (put table entry.1 entry.2).map (·.1) ↔
          key ∈ table.map (·.1) ∨ key = entry.1 := by
        rw [map_fst_put]
        split
        · rename_i hold
          exact ⟨.inl, fun h => h.elim id fun heq => heq ▸ hold⟩
        · simp
      rw [List.foldl_cons, ih, hput, List.map_cons, List.mem_cons, or_assoc]

/-- The declared keys are those of the recipe and those of the context. -/
theorem mem_keys {key : String} : key ∈ (setting.variableDefaults recipe).map (·.1) ↔
    key ∈ recipe.defaults.map (·.1) ∨ key ∈ setting.context.map (·.1) := by
  rw [variableDefaults, mem_map_fst_foldl_put, List.map_append, List.mem_append]
  simp

theorem braced_infix_substitute_iff {key : String} (hopen : '{' ∉ key.toList)
    (hclose : '}' ∉ key.toList) (task : String) (keys : List String) :
    braced key.toList <:+: (substitute task keys).toList ↔ braced key.toList <:+: task.toList ∧
      ¬ ∃ name ∈ keys, Writes name.toList (braced key.toList) := by
  rw [substitute, String.toList_ofList, braced_infix_replace_iff _ hopen hclose]
  · refine and_congr_right fun _ => ?_
    push Not
    constructor
    · intro h name hname hwrites
      simpa [hname] using h name.toList hwrites
    · intro h name hwrites
      rw [if_neg]
      intro hname
      refine h (String.ofList name) (List.contains_iff_mem.1 hname) ?_
      rwa [String.toList_ofList]
  · intro name chosen hchosen
    split at hchosen
    · exact Option.some.inj hchosen ▸ referring_reference name
    · cases hchosen

theorem writes_of_isNameChar {key : String} (hne : key ≠ "")
    (hname : ∀ c ∈ key.toList, isNameChar c = true) : Writes key.toList (braced key.toList) :=
  ⟨[], [], by simp, by simp, hname, fun h => hne (String.toList_eq_nil_iff.1 h), by simp [braced]⟩

/--
The task of a step has its text with references for the declared keys in it. A
key without braces stays in its braces wherever a task has it so, unless the
braces make it a placeholder of a declared name; a declared key of the
characters of names is never left. So a task can keep a declared key exactly
if no declared name is written by the key in braces.
-/
theorem declared_keys_in_tasks (setting : Setting) (recipe : Recipe) :
    let keys := (setting.variableDefaults recipe).map (·.1)
    (∀ key, key ∈ keys ↔
      key ∈ recipe.defaults.map (·.1) ∨ key ∈ setting.context.map (·.1)) ∧
    (∀ (step : Step) (task : String), step.task = .text task →
      setting.taskText recipe step = .ok (substitute task keys ++ addition step)) ∧
    ∀ key : String, '{' ∉ key.toList → '}' ∉ key.toList →
      (∀ task : String, braced key.toList <:+: (substitute task keys).toList ↔
        braced key.toList <:+: task.toList ∧
          ¬ ∃ name ∈ keys, Writes name.toList (braced key.toList)) ∧
      ((∀ task : String, ¬ braced key.toList <:+: (substitute task keys).toList) ↔
        ∃ name ∈ keys, Writes name.toList (braced key.toList)) ∧
      (key ∈ keys → key ≠ "" → (∀ c ∈ key.toList, isNameChar c = true) →
        ∀ task : String, ¬ braced key.toList <:+: (substitute task keys).toList) := by
  intro keys
  refine ⟨fun key => mem_keys, fun _ _ => taskText_of_text, fun key hopen hclose => ?_⟩
  have hiff (task : String) := braced_infix_substitute_iff hopen hclose task keys
  have hnever : (∀ task : String, ¬ braced key.toList <:+: (substitute task keys).toList) ↔
      ∃ name ∈ keys, Writes name.toList (braced key.toList) := by
    constructor
    · intro h
      by_contra hnone
      refine h (String.ofList (braced key.toList)) ((hiff _).2 ⟨?_, hnone⟩)
      exact String.toList_ofList ▸ List.infix_rfl
    · exact fun hname task h => ((hiff task).1 h).2 hname
  exact ⟨hiff, hnever, fun hkey hne hname =>
    hnever.2 ⟨key, hkey, writes_of_isNameChar hne hname⟩⟩

/-- A recipe whose variable has a blank in its key. -/
def bugRecipe : Recipe := withDefaults [("my bug", "a crash")]

/-- The key is declared, and the task keeps it in its braces. -/
theorem declared_keys_in_tasks_blank :
    let keys := (bareSetting.variableDefaults bugRecipe).map (·.1)
    "my bug" ∈ keys ∧ '{' ∉ "my bug".toList ∧ '}' ∉ "my bug".toList ∧
      braced "my bug".toList <:+: (substitute "Fix \x7b\x7bmy bug\x7d\x7d" keys).toList := by
  intro keys
  have hkeys : keys = ["my bug"] := rfl
  have hopen : '{' ∉ "my bug".toList := by decide
  have hclose : '}' ∉ "my bug".toList := by decide
  refine ⟨hkeys ▸ List.mem_singleton_self _, hopen, hclose, ?_⟩
  refine (((declared_keys_in_tasks bareSetting bugRecipe).2.2 _ hopen hclose).1 _).2
    ⟨⟨"Fix ".toList, [], by decide⟩, ?_⟩
  rintro ⟨name, hname, hwrites⟩
  have htag : tag? placeholderOpening (braced "my bug".toList ++ []) = none := by decide
  rw [hwrites.tag?] at htag
  cases htag

end Setting

end Playbook
