import Mathlib.Data.List.Basic
import Playbook.Proofs.Template
import Playbook.Shell.Quote
import Playbook.Shell.Variable

/-!
# References in place of placeholders

A reference begins with a dollar sign, an escaped character with a backslash,
and neither is part of a placeholder. So a text in which some placeholders
became references, or in which characters were escaped, has the placeholders
it had before, but for those that became references.
-/

namespace Playbook

open Template

namespace Template

/-- The placeholders of a text with their written forms, in order. -/
def occurrences (text : String) : List Segment :=
  (segments text.toList).filter fun segment => segment.name?.isSome

end Template

namespace Text

theorem upperChar_ne_nil (c : Char) : upperChar c ≠ [] := by
  have hsequences : ∀ entry ∈ upperSequences, entry.2 ≠ [] := by decide
  unfold upperChar mapCase
  split
  · simp
  · dsimp only
    split
    · rename_i codes hcodes
      obtain ⟨before, behind, hentry, -⟩ := List.lookup_eq_some_iff.1 hcodes
      simpa using hsequences (c.toNat, codes) (by simp [hentry])
    · split <;> simp

end Text

namespace Shell

/-! ## Names -/

/-- What the name of a variable is made of. -/
def isVariableChar (c : Char) : Bool := isCapitalOrDigit c || c == '_'

theorem isVariableChar_nameChar (c : Char) : isVariableChar (nameChar c) := by
  unfold nameChar
  split
  · assumption
  · rfl

theorem isVariableChar_of_mem {key : List Char} {c : Char} (h : c ∈ variableNameChars key) :
    isVariableChar c := by
  have hmapped : ∀ d ∈ (key.flatMap Text.upperChar).map nameChar, isVariableChar d := by
    intro d hd
    obtain ⟨c, -, rfl⟩ := List.mem_map.1 hd
    exact isVariableChar_nameChar c
  unfold variableNameChars at h
  split at h
  · cases h
  · rename_i first rest hcons
    rw [hcons] at hmapped
    split at h
    · rcases List.mem_cons.1 h with rfl | h
      · rfl
      · exact hmapped c h
    · exact hmapped c h

theorem variableNameChars_ne_nil {key : List Char} (h : key ≠ []) :
    variableNameChars key ≠ [] := by
  obtain ⟨c, rest, rfl⟩ := List.exists_cons_of_ne_nil h
  unfold variableNameChars
  split
  · rename_i hnil
    simp [Text.upperChar_ne_nil] at hnil
  · split <;> simp

theorem marked_reference (key : List Char) : Marked (reference (variableNameChars key)) := by
  have hplain : ∀ c ∈ variableNameChars key ++ ['}'], c ≠ '{' := by
    rintro c hc rfl
    rcases List.mem_append.1 hc with hc | hc
    · cases isVariableChar_of_mem hc
    · simp at hc
  refine ⟨⟨'$', '{' :: variableNameChars key ++ ['}'], rfl, by decide⟩, ?_⟩
  apply Inert.cons (by decide)
  have hinert := inert_of_forall_ne hplain
  change Inert ('{' :: (variableNameChars key ++ ['}']))
  cases hname : variableNameChars key ++ ['}'] with
  | nil => simp at hname
  | cons c rest =>
      rw [hname] at hplain hinert
      exact hinert.brace (hplain c List.mem_cons_self)

/-! ## Substitution -/

/-- A placeholder of a declared key. -/
def isDeclared (keys : List String) (segment : Segment) : Bool :=
  segment.name?.any fun name => keys.contains (String.ofList name)

/-- The reference that takes the place of a placeholder of a declared key. -/
def declaredReference (keys : List String) (segment : Segment) : Option (List Char) :=
  segment.name?.bind fun name =>
    if keys.contains (String.ofList name) then some (reference (variableNameChars name)) else none

variable (text : String) (keys : List String)

/-- The placeholders of declared keys become references, and nothing else changes. -/
theorem segments_substitute :
    segments (substitute text keys).toList =
      (segments text.toList).flatMap (·.remains (declaredReference keys)) := by
  rw [substitute, String.toList_ofList, segments_replace]
  · rfl
  · intro name chosen hchosen
    split at hchosen
    · cases hchosen
      exact marked_reference name
    · cases hchosen

variable {keys} in
theorem declaredReference_eq_none {segment : Segment} (h : isDeclared keys segment = false) :
    declaredReference keys segment = none := by
  cases segment <;> simp_all [isDeclared, declaredReference]

variable {keys} in
theorem exists_of_isDeclared {segment : Segment} (h : isDeclared keys segment) :
    ∃ name source, segment = .placeholder name source ∧ String.ofList name ∈ keys := by
  cases segment <;> simp_all [isDeclared]

theorem filter_remains (segment : Segment) :
    (segment.remains (declaredReference keys)).filter (·.name?.isSome) =
      [segment].filter fun segment => !isDeclared keys segment && segment.name?.isSome := by
  cases hdeclared : isDeclared keys segment with
  | false =>
      rw [Segment.remains, declaredReference_eq_none hdeclared, List.filter_singleton,
        List.filter_singleton, hdeclared]
      simp
  | true =>
      obtain ⟨name, source, rfl, hname⟩ := exists_of_isDeclared hdeclared
      simp [Segment.remains, declaredReference, hname, hdeclared]

theorem occurrences_substitute :
    occurrences (substitute text keys) =
      (occurrences text).filter fun segment => !isDeclared keys segment := by
  rw [occurrences, segments_substitute, List.filter_flatMap, occurrences, List.filter_filter]
  induction segments text.toList with
  | nil => rfl
  | cons segment rest ih =>
      rw [List.flatMap_cons, ih, filter_remains, ← List.filter_append, List.singleton_append]

variable {text keys} in
/-- A text without placeholders of declared keys stays as it is. -/
theorem substitute_eq_self (h : ∀ segment ∈ occurrences text, isDeclared keys segment = false) :
    substitute text keys = text := by
  have hkept : ∀ segment ∈ segments text.toList,
      segment.swapped (declaredReference keys) = segment.source := by
    intro segment hsegment
    cases segment with
    | literal c => rfl
    | placeholder name source =>
        have hundeclared := h _ (List.mem_filter.2 ⟨hsegment, rfl⟩)
        rw [Segment.swapped, declaredReference_eq_none hundeclared, Option.getD_none]
  have hchars := (List.flatMap_congr hkept).trans (flatMap_source text.toList)
  rw [substitute, replace_eq_swapped]
  exact (congrArg String.ofList hchars).trans String.ofList_toList

theorem substitute_substitute :
    substitute (substitute text keys) keys = substitute text keys := by
  apply substitute_eq_self
  rw [occurrences_substitute]
  intro segment hsegment
  simpa using (List.mem_filter.1 hsegment).2

/-! ## Escaped text -/

/-- An escaped character takes the place of one that needs care. -/
def escapedSegment : Segment → Option (List Char)
  | .literal c => if isEscaped c then some ['\\', c] else none
  | .placeholder _ _ => none

theorem isTagChar_eq_false_of_isEscaped {c : Char} (h : isEscaped c) : isTagChar c = false := by
  simp only [isEscaped, Bool.or_eq_true, beq_iff_eq] at h
  rcases h with (rfl | rfl) | rfl <;> decide

theorem escapeChars_eq_swapped (text : List Char) :
    escapeChars text = (segments text).flatMap (·.swapped escapedSegment) := by
  have hchar (segment : Segment) (hsegment : segment ∈ segments text) :
      segment.swapped escapedSegment = escapeChars segment.source := by
    cases segment with
    | literal c =>
        cases hescaped : isEscaped c <;>
          simp [Segment.swapped, escapedSegment, escapeChars, escapeChar, hescaped]
    | placeholder name source =>
        have hplain : ∀ c ∈ source, escapeChar c = [c] := by
          intro c hc
          have htag := (writes_of_mem_segments hsegment).isTagChar c hc
          rw [escapeChar, if_neg]
          intro hescaped
          rw [isTagChar_eq_false_of_isEscaped hescaped] at htag
          cases htag
        rw [Segment.source_placeholder, escapeChars, List.flatMap_congr hplain,
          List.flatMap_singleton']
        rfl
  rw [List.flatMap_congr hchar]
  conv_lhs => rw [← flatMap_source text]
  simp [escapeChars, List.flatMap_assoc]

/-- Escaping a text leaves its placeholders in place. -/
theorem segments_escapeChars (text : List Char) :
    segments (escapeChars text) = (segments text).flatMap (·.remains escapedSegment) := by
  rw [escapeChars_eq_swapped, segments_swapped]
  intro segment _ chosen hchosen
  cases segment with
  | placeholder name source => cases hchosen
  | literal c =>
      simp only [escapedSegment, Option.ite_none_right_eq_some, Option.mem_def] at hchosen
      obtain ⟨hescaped, hchosen⟩ := hchosen
      cases hchosen
      refine ⟨⟨'\\', [c], rfl, by decide⟩, inert_of_forall_ne ?_⟩
      rintro d hd rfl
      simp only [List.mem_cons, List.not_mem_nil, or_false] at hd
      rcases hd with hd | rfl
      · cases hd
      · cases hescaped

end Shell

end Playbook
