import Playbook.Proofs.Shell.Quoting

/-!
# Reading quoted text back

What a shell takes a text for: the characters that stand for themselves.
Escaped text between double quotes and a word in single quotes are taken for
the text that they were made from, whatever comes behind.
-/

namespace Playbook.Shell

/-- The characters that stand for themselves. -/
def literals (found : List Role) (text : List Char) : List Char :=
  (found.zip text).filterMap fun (role, c) => if role = .literal then some c else none

/-- What a shell takes a text for, in front of another character. -/
def understood (mode : Mode) (text : List Char) (next : Option Char) : List Char :=
  literals (roles mode text next) text

theorem understood_append (mode : Mode) (text rest : List Char) (next : Option Char) :
    understood mode (text ++ rest) next =
      understood mode text (rest.head?.or next) ++
        understood (after mode text (rest.head?.or next)) rest next := by
  rw [understood, roles_append, literals, List.zip_append (length_roles ..),
    List.filterMap_append]
  rfl

/-- A text turns a mode into another and is taken for its meaning, whatever comes behind. -/
structure TakenFor (allowed : List Role) (mode : Mode) (text meaning : List Char) (mode' : Mode) :
    Prop where
  understood_eq : ∀ next, understood mode text next = meaning
  after_eq : ∀ next, after mode text next = mode'
  /-- None of its characters has a role that is not allowed. -/
  roles_subset : ∀ next, roles mode text next ⊆ allowed

namespace TakenFor

variable {allowed : List Role} {mode mode' mode'' : Mode} {text rest meaning other : List Char}

/-- The roles of a text decide what it is taken for. -/
theorem of_roles (found : List Role) (hroles : ∀ next, roles mode text next = found)
    (hafter : ∀ next, after mode text next = mode') (hallowed : found ⊆ allowed)
    (hmeaning : literals found text = meaning) : TakenFor allowed mode text meaning mode' where
  understood_eq next := by rw [understood, hroles, hmeaning]
  after_eq := hafter
  roles_subset next := by rwa [hroles]

theorem nil (allowed : List Role) (mode : Mode) : TakenFor allowed mode [] [] mode :=
  of_roles [] (fun _ => rfl) (fun _ => rfl) (List.nil_subset _) rfl

theorem append (h : TakenFor allowed mode text meaning mode')
    (hrest : TakenFor allowed mode' rest other mode'') :
    TakenFor allowed mode (text ++ rest) (meaning ++ other) mode'' where
  understood_eq next := by
    rw [understood_append, h.after_eq, h.understood_eq, hrest.understood_eq]
  after_eq next := by
    rw [after_append, h.after_eq, hrest.after_eq]
  roles_subset next := by
    rw [roles_append, h.after_eq]
    exact List.append_subset.2 ⟨h.roles_subset _, hrest.roles_subset next⟩

/-- What is written character by character is read character by character. -/
theorem flatMap {write : Char → List Char} (h : ∀ c, TakenFor allowed mode (write c) [c] mode)
    (text : List Char) : TakenFor allowed mode (text.flatMap write) text mode := by
  induction text with
  | nil => exact nil allowed mode
  | cons c text ih => exact (h c).append ih

/-- Texts that are written alike are taken for the same, so they are the same. -/
theorem injective {write : List Char → List Char}
    (h : ∀ text, TakenFor allowed mode (write text) text mode') : Function.Injective write := by
  intro text other hwritten
  rw [← (h text).understood_eq none, ← (h other).understood_eq none, hwritten]

end TakenFor

/-! ## Double quotes -/

theorem takenFor_escapeChar (c : Char) :
    TakenFor [.guard, .literal] .double (escapeChar c) [c] .double := by
  apply TakenFor.of_roles (escapeRoles c) (fun next => (read_escapeChar c next).1)
    (fun next => (read_escapeChar c next).2)
  · cases h : isEscaped c <;> simp [escapeRoles, h]
  · cases h : isEscaped c <;> simp [literals, escapeChar, escapeRoles, h]

theorem takenFor_escapeChars (text : List Char) :
    TakenFor [.guard, .literal] .double (escapeChars text) text .double :=
  .flatMap takenFor_escapeChar text

/-- Each occurrence of a character gives way to another text. -/
def replaceEach (mark : Char) (other text : List Char) : List Char :=
  text.flatMap fun c => if c = mark then other else [c]

/-- The backslashes of the first exchange are left alone by the others. -/
theorem escapeChars_eq_replaceEach (text : List Char) :
    escapeChars text = replaceEach '\x60' ['\\', '\x60']
      (replaceEach '"' ['\\', '"'] (replaceEach '\\' ['\\', '\\'] text)) := by
  simp only [replaceEach, List.flatMap_assoc, escapeChars]
  apply List.flatMap_congr
  intro c _
  by_cases hslash : c = '\\'
  · subst hslash
    decide
  by_cases hquote : c = '"'
  · subst hquote
    decide
  by_cases htick : c = '\x60'
  · subst htick
    decide
  · simp [escapeChar, isEscaped, hslash, hquote, htick]

/-! ## Single quotes -/

theorem takenFor_singleChar (c : Char) :
    TakenFor [.quote, .guard, .literal] .single (singleChar c) [c] .single := by
  by_cases hc : c = '\''
  · subst hc
    exact .of_roles [.quote, .guard, .literal, .quote] (fun _ => rfl) (fun _ => rfl)
      (by decide) (by decide)
  · have hchar : singleChar c = [c] := if_neg hc
    have hread (next : Option Char) : read .single c next = (.literal, .single) := if_neg hc
    rw [hchar]
    exact .of_roles [.literal] (fun next => by simp [roles, hread])
      (fun next => by simp [after, hread]) (by decide) rfl

theorem takenFor_singleChars (text : List Char) :
    TakenFor [.quote, .guard, .literal] .bare (singleChars text) text .bare := by
  have hopen : TakenFor [.quote, .guard, .literal] .bare ['\''] [] .single :=
    .of_roles [.quote] (fun _ => rfl) (fun _ => rfl) (by decide) rfl
  have hclose : TakenFor [.quote, .guard, .literal] .single ['\''] [] .bare :=
    .of_roles [.quote] (fun _ => rfl) (fun _ => rfl) (by decide) rfl
  have h := (hopen.append (.flatMap takenFor_singleChar text)).append hclose
  rwa [List.append_nil] at h

/-! ## Texts -/

/-- Between double quotes escaped text holds no quote and no backtick that a shell would act on and
is taken for the text; a word in single quotes is taken for it as well. -/
theorem quoted_texts_read_back :
    (∀ text, TakenFor [.guard, .literal] .double (escape text).toList text.toList .double) ∧
    Function.Injective escape ∧
    (∀ text other, escape (text ++ other) = escape text ++ escape other) ∧
    (∀ text, (escape text).toList = replaceEach '\x60' ['\\', '\x60']
      (replaceEach '"' ['\\', '"'] (replaceEach '\\' ['\\', '\\'] text.toList))) ∧
    ∀ text, TakenFor [.quote, .guard, .literal] .bare (single text).toList text.toList .bare := by
  refine ⟨fun text => ?_, fun text other h => ?_, fun text other => ?_, fun text => ?_,
    fun text => ?_⟩
  · rw [escape, String.toList_ofList]
    exact takenFor_escapeChars text.toList
  · have hchars := TakenFor.injective takenFor_escapeChars (String.ofList_inj.1 h)
    exact String.toList_inj.1 hchars
  · simp [escape, escapeChars]
  · rw [escape, String.toList_ofList, escapeChars_eq_replaceEach]
  · rw [single, String.toList_ofList]
    exact takenFor_singleChars text.toList

end Playbook.Shell
