import Mathlib.Data.List.TakeWhile
import Playbook.Template

/-!
# Placeholders in a text that was changed

A placeholder is made of braces, blanks and the characters of a name. If every
text that is put in begins with another character and has no two braces in a
row, the placeholders of the new text are those that were left in place.
-/

namespace Playbook.Template

/-! ## The written form of a tag -/

/-- What a placeholder is made of. -/
def isTagChar (c : Char) : Bool := isNameChar c || Text.isBlank c || c == '{' || c == '}'

/-- The text of a tag with a name. -/
def IsTag (opening name source : List Char) : Prop :=
  ∃ before behind, (∀ c ∈ before, Text.isBlank c) ∧ (∀ c ∈ behind, Text.isBlank c) ∧
    (∀ c ∈ name, isNameChar c) ∧ name ≠ [] ∧
    source = opening ++ before ++ name ++ behind ++ ['}', '}']

/-- The text of a placeholder with a name. -/
def Writes (name source : List Char) : Prop :=
  ∃ before behind, (∀ c ∈ before, Text.isBlank c) ∧ (∀ c ∈ behind, Text.isBlank c) ∧
    (∀ c ∈ name, isNameChar c) ∧ name ≠ [] ∧
    source = ['{', '{'] ++ before ++ name ++ behind ++ ['}', '}']

theorem isBlank_of_isNameChar {c : Char} (h : isNameChar c) : Text.isBlank c = false := by
  have hrange : 0x2d ≤ c.toNat ∧ c.toNat ≤ 0x7a := by
    simp only [isNameChar, Bool.or_eq_true, Bool.and_eq_true, decide_eq_true_eq, beq_iff_eq] at h
    rcases h with ((((h | h) | h) | rfl) | rfl) | rfl
    · exact ⟨Nat.le_trans (by decide) h.1, Nat.le_trans h.2 (by decide)⟩
    · exact ⟨Nat.le_trans (by decide) h.1, Nat.le_trans h.2 (by decide)⟩
    · exact ⟨Nat.le_trans (by decide) h.1, Nat.le_trans h.2 (by decide)⟩
    · decide
    · decide
    · decide
  simp only [Text.isBlank, Bool.or_eq_false_iff, Bool.and_eq_false_iff, decide_eq_false_iff_not,
    beq_eq_false_iff_ne]
  omega

theorem isNameChar_of_isBlank {c : Char} (h : Text.isBlank c) : isNameChar c = false := by
  by_contra hname
  rw [isBlank_of_isNameChar (by simpa using hname)] at h
  cases h

theorem after?_eq_some_iff {mark text rest : List Char} :
    after? mark text = some rest ↔ text = mark ++ rest := by
  induction mark generalizing text with
  | nil => simp [after?]
  | cons m mark ih =>
      cases text with
      | nil => simp [after?]
      | cons c text => by_cases hc : m = c <;> simp [after?, hc, ih, eq_comm]

theorem after?_append (mark rest : List Char) : after? mark (mark ++ rest) = some rest :=
  after?_eq_some_iff.2 rfl

theorem dropWhile_eq_self {p : Char → Bool} {text : List Char}
    (h : ∀ c ∈ text.head?, p c = false) : text.dropWhile p = text := by
  cases text with
  | nil => rfl
  | cons c rest => simp_all

theorem takeWhile_eq_nil {p : Char → Bool} {text : List Char}
    (h : ∀ c ∈ text.head?, p c = false) : text.takeWhile p = [] := by
  cases text with
  | nil => rfl
  | cons c rest => simp_all

theorem IsTag.tag? {opening name source : List Char} (h : IsTag opening name source)
    (rest : List Char) : tag? opening (source ++ rest) = some (name, rest) := by
  obtain ⟨before, behind, hbefore, hbehind, hname, hne, rfl⟩ := h
  have hend : ∀ c ∈ (behind ++ ['}', '}'] ++ rest).head?, isNameChar c = false := by
    cases behind with
    | nil => simp [isNameChar]
    | cons c behind => simpa using isNameChar_of_isBlank (hbehind c List.mem_cons_self)
  have hstart : ∀ c ∈ (name ++ (behind ++ ['}', '}'] ++ rest)).head?, Text.isBlank c = false := by
    cases name with
    | nil => exact absurd rfl hne
    | cons c name => simpa using isBlank_of_isNameChar (hname c List.mem_cons_self)
  have hopen : after? opening (opening ++ before ++ name ++ behind ++ ['}', '}'] ++ rest) =
      some (before ++ (name ++ (behind ++ ['}', '}'] ++ rest))) := by
    rw [after?_eq_some_iff]
    simp
  have hclose : after? ['}', '}'] (behind ++ (['}', '}'] ++ rest) |>.dropWhile Text.isBlank) =
      some rest := by
    rw [List.dropWhile_append_of_pos hbehind, after?_eq_some_iff]
    exact dropWhile_eq_self (by simp [Text.isBlank])
  simp only [Template.tag?, hopen, Option.bind_eq_bind, Option.bind_some,
    List.dropWhile_append_of_pos hbefore, dropWhile_eq_self hstart,
    List.takeWhile_append_of_pos hname, List.dropWhile_append_of_pos hname,
    takeWhile_eq_nil hend, dropWhile_eq_self hend, List.append_nil]
  rw [List.isEmpty_eq_false_iff.2 hne, List.append_assoc, hclose]
  rfl

theorem exists_isTag {opening text name rest : List Char}
    (h : tag? opening text = some (name, rest)) :
    ∃ source, IsTag opening name source ∧ text = source ++ rest := by
  simp only [tag?, Option.bind_eq_bind, Option.bind_eq_some_iff] at h
  obtain ⟨inner, hinner, h⟩ := h
  split at h
  · cases h
  rename_i hne
  obtain ⟨behind, hbehind, h⟩ := Option.bind_eq_some_iff.1 h
  cases h
  rw [after?_eq_some_iff] at hinner hbehind
  have hblanks := List.takeWhile_append_dropWhile (p := Text.isBlank) (l := inner)
  have hname := List.takeWhile_append_dropWhile (p := isNameChar)
    (l := inner.dropWhile Text.isBlank)
  have hmore := List.takeWhile_append_dropWhile (p := Text.isBlank)
    (l := (inner.dropWhile Text.isBlank).dropWhile isNameChar)
  refine ⟨_, ⟨inner.takeWhile Text.isBlank,
    ((inner.dropWhile Text.isBlank).dropWhile isNameChar).takeWhile Text.isBlank,
    fun c => List.mem_takeWhile_imp, fun c => List.mem_takeWhile_imp,
    fun c => List.mem_takeWhile_imp, by simpa using hne, rfl⟩, ?_⟩
  rw [hinner, List.append_assoc, List.append_assoc, List.append_assoc, List.append_assoc,
    ← hbehind, hmore, hname, hblanks]

/-- Where a tag cannot open there is none. -/
theorem tag?_eq_none {opening text : List Char} (h : ¬ opening <+: text) :
    tag? opening text = none := by
  by_contra hfound
  obtain ⟨⟨name, rest⟩, hfound⟩ := Option.ne_none_iff_exists'.1 hfound
  obtain ⟨source, ⟨before, behind, -, -, -, -, rfl⟩, rfl⟩ := exists_isTag hfound
  apply h
  simp only [List.append_assoc]
  exact List.prefix_append _ _

theorem Writes.tag? {name source : List Char} (h : Writes name source) (rest : List Char) :
    tag? placeholderOpening (source ++ rest) = some (name, rest) :=
  IsTag.tag? h rest

theorem exists_of_tag?_eq_some {text name rest : List Char}
    (h : tag? placeholderOpening text = some (name, rest)) :
    ∃ source, Writes name source ∧ text = source ++ rest :=
  exists_isTag h

theorem Writes.isTagChar {name source : List Char} (h : Writes name source) :
    ∀ c ∈ source, isTagChar c = true := by
  obtain ⟨before, behind, hbefore, hbehind, hname, -, rfl⟩ := h
  intro c hc
  simp only [List.mem_append, or_assoc] at hc
  rcases hc with hc | hc | hc | hc | hc
  · simp_all [Template.isTagChar]
  · simp [Template.isTagChar, hbefore c hc]
  · simp [Template.isTagChar, hname c hc]
  · simp [Template.isTagChar, hbehind c hc]
  · simp_all [Template.isTagChar]

/-! ## Segments -/

namespace Segment

variable (c : Char) (name source : List Char)

@[simp] theorem source_literal : (literal c).source = [c] := rfl

@[simp] theorem source_placeholder : (placeholder name source).source = source := rfl

@[simp] theorem name?_literal : (literal c).name? = none := rfl

@[simp] theorem name?_placeholder : (placeholder name source).name? = some name := rfl

end Segment

theorem tag?_cons_of_ne {c : Char} (h : c ≠ '{') (rest : List Char) :
    tag? placeholderOpening (c :: rest) = none := by
  simp [tag?, after?, placeholderOpening, h.symm]

theorem tag?_brace_of_ne {c : Char} (h : c ≠ '{') (rest : List Char) :
    tag? placeholderOpening ('{' :: c :: rest) = none := by
  simp [tag?, after?, placeholderOpening, h.symm]

@[simp] theorem segments_nil : segments [] = [] := by
  rw [segments]

theorem segments_of_tag?_eq_none {c : Char} {rest : List Char}
    (h : tag? placeholderOpening (c :: rest) = none) :
    segments (c :: rest) = .literal c :: segments rest := by
  rw [segments]
  split
  · simp_all
  · rfl

theorem segments_append_of_writes {name source : List Char} (h : Writes name source)
    (rest : List Char) :
    segments (source ++ rest) = .placeholder name source :: segments rest := by
  have htag := h.tag? rest
  obtain ⟨c, more, hsource⟩ : ∃ c more, source ++ rest = c :: more := by
    obtain ⟨before, behind, -, -, -, -, rfl⟩ := h
    exact ⟨_, _, rfl⟩
  rw [hsource] at htag ⊢
  rw [segments]
  split
  · rename_i found behind hfound
    rw [htag] at hfound
    cases hfound
    rw [← hsource]
    simp
  · simp_all

/-- A segment as it comes about: a character at which no placeholder begins, or a placeholder. -/
theorem segments_induction {motive : List Char → Prop} (nil : motive [])
    (literal : ∀ c rest, tag? placeholderOpening (c :: rest) = none → motive rest →
      motive (c :: rest))
    (placeholder : ∀ name source rest, Writes name source → motive rest →
      motive (source ++ rest)) (text : List Char) : motive text := by
  fun_induction segments text with
  | case1 => exact nil
  | case2 c rest name behind htag ih =>
      obtain ⟨source, hwrites, htext⟩ := exists_of_tag?_eq_some htag
      rw [htext]
      exact placeholder name source behind hwrites ih
  | case3 c rest htag ih => exact literal c rest htag ih

theorem flatMap_source (text : List Char) : (segments text).flatMap (·.source) = text := by
  induction text using segments_induction with
  | nil => simp
  | literal c rest htag ih => simp [segments_of_tag?_eq_none htag, ih]
  | placeholder name source rest hwrites ih => simp [segments_append_of_writes hwrites, ih]

theorem writes_of_mem_segments {text name source : List Char}
    (h : .placeholder name source ∈ segments text) : Writes name source := by
  induction text using segments_induction with
  | nil => simp at h
  | literal c rest htag ih =>
      rw [segments_of_tag?_eq_none htag] at h
      simpa using ih (by simpa using h)
  | placeholder other written rest hwrites ih =>
      rw [segments_append_of_writes hwrites, List.mem_cons] at h
      rcases h with h | h
      · cases h
        exact hwrites
      · exact ih h

/-! ## Text without placeholders -/

/-- No placeholder begins in a text, whatever comes behind. -/
def Inert (text : List Char) : Prop :=
  ∀ rest, segments (text ++ rest) = text.map .literal ++ segments rest

theorem inert_nil : Inert [] := fun _ => rfl

theorem Inert.cons {c : Char} {text : List Char} (hc : c ≠ '{') (h : Inert text) :
    Inert (c :: text) := by
  intro rest
  rw [List.cons_append, segments_of_tag?_eq_none (tag?_cons_of_ne hc _), h]
  rfl

/-- One brace does no harm. -/
theorem Inert.brace {c : Char} {text : List Char} (hc : c ≠ '{') (h : Inert (c :: text)) :
    Inert ('{' :: c :: text) := by
  intro rest
  have hbehind := h rest
  rw [List.cons_append, List.cons_append, segments_of_tag?_eq_none (tag?_brace_of_ne hc _),
    ← List.cons_append, hbehind]
  rfl

theorem inert_of_forall_ne {text : List Char} (h : ∀ c ∈ text, c ≠ '{') : Inert text := by
  induction text with
  | nil => exact inert_nil
  | cons c text ih =>
      apply Inert.cons (h c List.mem_cons_self)
      exact ih fun d hd => h d (List.mem_cons_of_mem _ hd)

/-- A text that neither begins a placeholder nor ends one. -/
def Marked (text : List Char) : Prop :=
  (∃ mark rest, text = mark :: rest ∧ isTagChar mark = false) ∧ Inert text

/-! ## Changed text -/

/-- The text of a segment, or what is chosen in its place. -/
def Segment.swapped (choice : Segment → Option (List Char)) (segment : Segment) : List Char :=
  (choice segment).getD segment.source

/-- What becomes of a segment: it stays, or gives way to characters. -/
def Segment.remains (choice : Segment → Option (List Char)) (segment : Segment) : List Segment :=
  match choice segment with
  | some chosen => chosen.map .literal
  | none => [segment]

variable {choice : Segment → Option (List Char)}

theorem prefix_of_swapped {found : List Segment} {start : List Char}
    (hmarked : ∀ segment ∈ found, ∀ chosen ∈ choice segment, Marked chosen)
    (htag : ∀ c ∈ start, isTagChar c = true)
    (h : start <+: found.flatMap (·.swapped choice)) :
    start <+: found.flatMap (·.source) := by
  induction found generalizing start with
  | nil => exact h
  | cons segment found ih =>
      obtain ⟨hsegment, hfound⟩ := List.forall_mem_cons.1 hmarked
      rw [List.flatMap_cons] at h ⊢
      cases hchoice : choice segment with
      | none =>
          rw [Segment.swapped, hchoice, Option.getD_none] at h
          rcases List.prefix_or_prefix_of_prefix h (List.prefix_append _ _) with hshort | hlong
          · exact hshort.trans (List.prefix_append _ _)
          · obtain ⟨more, rfl⟩ := hlong
            rw [List.prefix_append_right_inj] at h ⊢
            exact ih hfound (fun c hc => htag c (List.mem_append_right _ hc)) h
      | some chosen =>
          obtain ⟨⟨mark, rest, rfl, hmark⟩, -⟩ := hsegment chosen hchoice
          rw [Segment.swapped, hchoice, Option.getD_some, List.cons_append] at h
          cases start with
          | nil => exact List.nil_prefix
          | cons c start =>
              obtain ⟨rfl, -⟩ := List.cons_prefix_cons.1 h
              rw [htag c List.mem_cons_self] at hmark
              cases hmark

/-- The segments of a changed text are those that stay, and characters. -/
theorem segments_swapped {text : List Char}
    (hmarked : ∀ segment ∈ segments text, ∀ chosen ∈ choice segment, Marked chosen) :
    segments ((segments text).flatMap (·.swapped choice)) =
      (segments text).flatMap (·.remains choice) := by
  induction text using segments_induction with
  | nil => simp
  | literal c rest htag ih =>
      rw [segments_of_tag?_eq_none htag] at hmarked ⊢
      obtain ⟨hc, hrest⟩ := List.forall_mem_cons.1 hmarked
      rw [List.flatMap_cons, List.flatMap_cons, ← ih hrest, Segment.swapped, Segment.remains]
      cases hchoice : choice (.literal c) with
      | some chosen => exact (hc chosen hchoice).2 _
      | none =>
          apply segments_of_tag?_eq_none
          -- A placeholder that begins here would have begun here before.
          by_contra hfound
          obtain ⟨⟨name, behind⟩, hfound⟩ := Option.ne_none_iff_exists'.1 hfound
          obtain ⟨source, hwrites, htext⟩ := exists_of_tag?_eq_some hfound
          obtain ⟨start, rfl⟩ : ∃ start, source = c :: start := by
            obtain ⟨before, behind, -, -, -, -, rfl⟩ := hwrites
            exact ⟨_, by rw [(List.cons.inj htext).1]; rfl⟩
          have hprefix := prefix_of_swapped hrest
            (fun d hd => hwrites.isTagChar d (List.mem_cons_of_mem _ hd))
            ⟨behind, (List.cons.inj htext).2.symm⟩
          rw [flatMap_source] at hprefix
          obtain ⟨more, rfl⟩ := hprefix
          rw [← List.cons_append, hwrites.tag?] at htag
          cases htag
  | placeholder name source rest hwrites ih =>
      rw [segments_append_of_writes hwrites] at hmarked ⊢
      obtain ⟨hsource, hrest⟩ := List.forall_mem_cons.1 hmarked
      rw [List.flatMap_cons, List.flatMap_cons, ← ih hrest, Segment.swapped, Segment.remains]
      cases hchoice : choice (.placeholder name source) with
      | some chosen => exact (hsource chosen hchoice).2 _
      | none => exact segments_append_of_writes hwrites _

/-! ## Replaced placeholders -/

section

variable {choice : List Char → Option (List Char)}

theorem replace_eq_swapped (text : List Char) :
    replace choice text =
      (segments text).flatMap (·.swapped fun segment => segment.name?.bind choice) := by
  unfold replace
  congr
  funext segment
  cases segment <;> rfl

/-- Placeholders that are replaced leave characters behind, and nothing else changes. -/
theorem segments_replace (hmarked : ∀ name chosen, choice name = some chosen → Marked chosen)
    (text : List Char) :
    segments (replace choice text) =
      (segments text).flatMap (·.remains fun segment => segment.name?.bind choice) := by
  rw [replace_eq_swapped, segments_swapped]
  intro segment _ chosen hchosen
  obtain ⟨name, -, hname⟩ := Option.bind_eq_some_iff.1 hchosen
  exact hmarked name chosen hname

end

end Playbook.Template
