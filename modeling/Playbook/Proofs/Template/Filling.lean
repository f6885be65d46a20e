import Mathlib.Data.List.Forall2
import Playbook.Filling
import Playbook.Proofs.Template
import Playbook.Proofs.Value.Reading

/-!
# Filled templates

A template is cut at its placeholders once its sections are resolved, and each
placeholder gives way to the text of its value. The values have a part in the
cut only by which names count; what is put in is not looked at again.
-/

namespace Playbook.Template

/-! ## Cutting at placeholders -/

/-- Segments of a text, from the left: where a placeholder begins, it is one segment. -/
inductive Cuts : List Char → List Segment → Prop where
  | nil : Cuts [] []
  | literal {c : Char} {rest : List Char} {found : List Segment} :
      (∀ name source, Writes name source → ¬ source <+: c :: rest) → Cuts rest found →
      Cuts (c :: rest) (.literal c :: found)
  | placeholder {name source rest : List Char} {found : List Segment} :
      Writes name source → Cuts rest found →
      Cuts (source ++ rest) (.placeholder name source :: found)

theorem cuts_iff {text : List Char} {found : List Segment} :
    Cuts text found ↔ segments text = found := by
  constructor
  · intro h
    induction h with
    | nil => exact segments_nil
    | @literal c rest found hnone _ ih =>
        rw [segments_of_tag?_eq_none, ih]
        by_contra htag
        obtain ⟨⟨name, behind⟩, htag⟩ := Option.ne_none_iff_exists'.1 htag
        obtain ⟨source, hwrites, htext⟩ := exists_of_tag?_eq_some htag
        exact hnone name source hwrites ⟨behind, htext.symm⟩
    | placeholder hwrites _ ih => rw [segments_append_of_writes hwrites, ih]
  · rintro rfl
    induction text using segments_induction with
    | nil =>
        rw [segments_nil]
        exact .nil
    | literal c rest htag ih =>
        rw [segments_of_tag?_eq_none htag]
        refine .literal (fun name source hwrites => ?_) ih
        rintro ⟨behind, hsource⟩
        rw [← hsource, hwrites.tag?] at htag
        cases htag
    | placeholder name source rest hwrites ih =>
        rw [segments_append_of_writes hwrites]
        exact .placeholder hwrites ih

/-! ## What is put in -/

/-- The text that comes of a segment. -/
inductive Fills (values : Entries) : Segment → List Char → Prop where
  | literal (c : Char) : Fills values (.literal c) [c]
  | value {name source : List Char} {v : Value} {text : String} :
      Entries.get? values (String.ofList name) = some v → v.isNull = false →
      v.shown = .ok text → Fills values (.placeholder name source) text.toList
  | unfilled {name source : List Char} :
      (∀ v ∈ Entries.get? values (String.ofList name), v.isNull) →
      Fills values (.placeholder name source) source

variable {values : Entries} {segment : Segment} {part : List Char}

theorem isShowable_of_isNull {v : Value} (h : v.isNull) : v.isShowable = true := by
  cases v with
  | null => rfl
  | _ => cases h

theorem chosenIn_of_value {name : List Char} {v : Value}
    (h : Entries.get? values (String.ofList name) = some v) (hnull : v.isNull = false) :
    chosenIn values name = some v.display.toList := by
  rw [chosenIn, valueOf?, h]
  cases v <;> first | rfl | cases hnull

theorem chosenIn_eq_none {name : List Char}
    (h : ∀ v ∈ Entries.get? values (String.ofList name), v.isNull) :
    chosenIn values name = none := by
  rw [chosenIn, valueOf?]
  cases hfound : Entries.get? values (String.ofList name) with
  | none => rfl
  | some v =>
      have hnull := h v hfound
      cases v <;> first | rfl | cases hnull

theorem isWritable_placeholder {name source : List Char} :
    isWritable values (.placeholder name source) ↔
      ∀ v ∈ Entries.get? values (String.ofList name), v.isShowable := by
  rw [isWritable, Segment.name?_placeholder, Option.bind_some, valueOf?]
  cases Entries.get? values (String.ofList name) <;> simp

theorem fills_iff :
    Fills values segment part ↔
      isWritable values segment ∧ part = segment.replaced (chosenIn values) := by
  constructor
  · intro h
    cases h with
    | literal c => exact ⟨rfl, rfl⟩
    | @value name source v text hfound hnull hshown =>
        obtain ⟨hshowable, rfl⟩ := Value.shown_eq_ok_iff.1 hshown
        refine ⟨isWritable_placeholder.2 ?_, ?_⟩
        · rintro _ hvalue
          rw [hfound] at hvalue
          cases hvalue
          exact hshowable
        · rw [Segment.replaced, chosenIn_of_value hfound hnull, Option.getD_some]
    | unfilled hnone =>
        refine ⟨isWritable_placeholder.2 fun v hv => ?_, ?_⟩
        · exact isShowable_of_isNull (hnone v hv)
        · rw [Segment.replaced, chosenIn_eq_none hnone, Option.getD_none]
  · rintro ⟨hwritable, rfl⟩
    cases segment with
    | literal c => exact .literal c
    | placeholder name source =>
        rw [isWritable_placeholder] at hwritable
        rw [Segment.replaced]
        cases hfound : Entries.get? values (String.ofList name) with
        | none =>
            have hnone : ∀ v ∈ Entries.get? values (String.ofList name), v.isNull := by
              simp [hfound]
            rw [chosenIn_eq_none hnone]
            exact .unfilled hnone
        | some v =>
            cases hnull : v.isNull with
            | true =>
                have hnone : ∀ v ∈ Entries.get? values (String.ofList name), v.isNull := by
                  simp [hfound, hnull]
                rw [chosenIn_eq_none hnone]
                exact .unfilled hnone
            | false =>
                rw [chosenIn_of_value hfound hnull, Option.getD_some]
                exact .value hfound hnull (Value.shown_eq_ok_iff.2 ⟨hwritable v hfound, rfl⟩)

theorem forall₂_fills_iff {found : List Segment} {parts : List (List Char)} :
    List.Forall₂ (Fills values) found parts ↔
      found.all (isWritable values) ∧ parts = found.map (·.replaced (chosenIn values)) := by
  induction found generalizing parts with
  | nil => simp
  | cons segment found ih =>
      rw [List.forall₂_cons_left_iff, List.all_cons, List.map_cons, Bool.and_eq_true]
      constructor
      · rintro ⟨part, rest, hpart, hrest, rfl⟩
        obtain ⟨hwritable, rfl⟩ := fills_iff.1 hpart
        obtain ⟨hall, rfl⟩ := ih.1 hrest
        exact ⟨⟨hwritable, hall⟩, rfl⟩
      · rintro ⟨⟨hwritable, hall⟩, rfl⟩
        exact ⟨_, _, fills_iff.2 ⟨hwritable, rfl⟩, ih.2 ⟨hall, rfl⟩, rfl⟩

theorem filled_eq_ok_iff {template out : String} :
    filled template values = .ok out ↔
      ∃ parts, List.Forall₂ (Fills values)
        (segments (resolveSections (countsIn values) template.toList)) parts ∧
        out = String.ofList parts.flatten := by
  simp only [forall₂_fills_iff, filled, fill, replace, List.flatMap_def]
  constructor
  · intro h
    split at h
    · rename_i hall
      cases h
      exact ⟨_, ⟨hall, rfl⟩, rfl⟩
    · cases h
  · rintro ⟨_, ⟨hall, rfl⟩, rfl⟩
    rw [if_pos hall]

theorem exists_filled_iff {template : String} :
    (∃ out, filled template values = .ok out) ↔
      ∀ segment ∈ segments (resolveSections (countsIn values) template.toList),
        isWritable values segment := by
  rw [← List.all_eq_true, filled]
  split <;> simp_all

/-- The only fault is that of a number with too many digits among the values. -/
theorem filled_cases (template : String) (values : Entries) :
    (∃ out, filled template values = .ok out) ∨
      filled template values = .error (.tooManyDigits none) ∧
        ∃ name v, Entries.get? values name = some v ∧ v.isShowable = false := by
  by_cases hall : (segments (resolveSections (countsIn values) template.toList)).all
      (isWritable values)
  · exact .inl ⟨_, if_pos hall⟩
  · refine .inr ⟨if_neg hall, ?_⟩
    rw [List.all_eq_true] at hall
    push Not at hall
    obtain ⟨segment, -, hsegment⟩ := hall
    cases segment with
    | literal c => exact absurd rfl hsegment
    | placeholder name source =>
        rw [ne_eq, isWritable_placeholder] at hsegment
        push Not at hsegment
        obtain ⟨v, hv, hlong⟩ := hsegment
        exact ⟨_, v, hv, by simpa using hlong⟩

/-! ## Two fillings -/

theorem literal_of_fills {found : List Segment} {parts : List (List Char)}
    (h : List.Forall₂ (Fills values) found parts) {i : Nat} {c : Char}
    (hliteral : found[i]? = some (.literal c)) : parts[i]? = some [c] := by
  rw [(forall₂_fills_iff.1 h).2, List.getElem?_map, hliteral]
  rfl

/-- A filled template is made of segments that the template and the names that count
determine, each with its text. So two maps of values that agree on those names give
texts that are alike but for what stands in place of the placeholders. -/
theorem exists_segments_filled (template : String) :
    ∃ cut : (List Char → Bool) → List Segment,
      (∀ counts, Cuts (resolveSections counts template.toList) (cut counts)) ∧
      (∀ values out, filled template values = .ok out ↔
        ∃ parts, List.Forall₂ (Fills values) (cut (countsIn values)) parts ∧
          out = String.ofList parts.flatten) ∧
      (∀ values, (∃ out, filled template values = .ok out) ↔
        ∀ name source, .placeholder name source ∈ cut (countsIn values) →
          ∀ v, Entries.get? values (String.ofList name) = some v → ∃ text, v.shown = .ok text) ∧
      ∀ values values' out out', (∀ name, countsIn values name = countsIn values' name) →
        filled template values = .ok out → filled template values' = .ok out' →
        ∃ parts parts',
          List.Forall₂ (Fills values) (cut (countsIn values)) parts ∧
          List.Forall₂ (Fills values') (cut (countsIn values)) parts' ∧
          out = String.ofList parts.flatten ∧ out' = String.ofList parts'.flatten ∧
          ∀ (i : Nat) (c : Char), (cut (countsIn values))[i]? = some (.literal c) →
            parts[i]? = some [c] ∧ parts'[i]? = some [c] := by
  refine ⟨fun counts => segments (resolveSections counts template.toList),
    fun counts => cuts_iff.2 rfl, fun values out => filled_eq_ok_iff, fun values => ?_,
    fun values values' out out' hcounts hout hout' => ?_⟩
  · rw [exists_filled_iff]
    constructor
    · intro h name source hmem v hv
      exact ⟨_, Value.shown_eq_ok_iff.2 ⟨isWritable_placeholder.1 (h _ hmem) v hv, rfl⟩⟩
    · intro h segment hmem
      cases segment with
      | literal c => rfl
      | placeholder name source =>
          refine isWritable_placeholder.2 fun v hv => ?_
          obtain ⟨text, htext⟩ := h name source hmem v hv
          exact (Value.shown_eq_ok_iff.1 htext).1
  · obtain ⟨parts, hparts, rfl⟩ := filled_eq_ok_iff.1 hout
    obtain ⟨parts', hparts', rfl⟩ := filled_eq_ok_iff.1 hout'
    rw [← funext hcounts] at hparts'
    exact ⟨parts, parts', hparts, hparts', rfl, rfl,
      fun i c hc => ⟨literal_of_fills hparts hc, literal_of_fills hparts' hc⟩⟩

/-- One of the two values looks like a placeholder itself, and stays as it is. -/
theorem exists_segments_filled_marked :
    let marked : Entries := [(.text "a", .text "\x7b\x7bb\x7d\x7d"), (.text "b", .text "x")]
    let plain : Entries := [(.text "a", .text "y"), (.text "b", .text "z")]
    ∃ found parts parts', List.Forall₂ (Fills marked) found parts ∧
      List.Forall₂ (Fills plain) found parts' ∧
      "1: \x7b\x7bb\x7d\x7d" = String.ofList parts.flatten ∧
      "1: y" = String.ofList parts'.flatten ∧
      ∀ (i : Nat) (c : Char), found[i]? = some (.literal c) →
        parts[i]? = some [c] ∧ parts'[i]? = some [c] := by
  intro marked plain
  obtain ⟨cut, -, -, -, htwo⟩ := exists_segments_filled
    "\x7b\x7b#b\x7d\x7d1: \x7b\x7b/b\x7d\x7d\x7b\x7ba\x7d\x7d"
  have hcounts : ∀ name, countsIn marked name = countsIn plain name := by
    intro name
    simp only [countsIn, valueOf?, Entries.get?, Entries.find?, marked, plain, List.find?_cons]
    cases (Value.text "a").same (.text (String.ofList name)) <;>
      cases (Value.text "b").same (.text (String.ofList name)) <;> rfl
  obtain ⟨parts, parts', hparts, hparts', hout, hout', hliteral⟩ :=
    htwo marked plain "1: \x7b\x7bb\x7d\x7d" "1: y" hcounts
      (by with_unfolding_all rfl) (by with_unfolding_all rfl)
  exact ⟨_, parts, parts', hparts, hparts', hout, hout', hliteral⟩

end Playbook.Template
