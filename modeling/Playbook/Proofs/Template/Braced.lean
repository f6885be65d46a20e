import Playbook.Proofs.Template

/-!
# Texts in braces

A text without braces that stands in two braces in a template is still there
when placeholders have given way to references, unless it is a placeholder and
has given way itself; and no such text comes about where there was none.
-/

namespace Playbook.Template

/-- A text in two braces, whether or not that makes it a placeholder. -/
def braced (key : List Char) : List Char := '{' :: '{' :: (key ++ ['}', '}'])

/-- What takes the place of a placeholder: a dollar sign, one brace, and no other that opens. -/
def Referring (chosen : List Char) : Prop :=
  ∃ c rest, chosen = '$' :: '{' :: c :: rest ∧ '{' ∉ c :: rest

variable {key inner text rest name source chosen : List Char}

/-! ## Where a text in braces stands -/

theorem infix_append_iff_of_notMem {first : Char} {more front : List Char} (h : first ∉ front) :
    first :: more <:+: front ++ rest ↔ first :: more <:+: rest := by
  induction front with
  | nil => rfl
  | cons c front ih =>
      obtain ⟨hc, hfront⟩ := not_or.1 (mt List.mem_cons.2 h)
      rw [List.cons_append, List.infix_cons_iff, ih hfront, or_iff_right]
      exact fun hbegins => hc (List.cons_prefix_cons.1 hbegins).1

/-- No text in braces begins at a brace with another character behind it. -/
theorem infix_brace_iff {c : Char} (hc : '{' ∉ c :: inner) :
    braced key <:+: '{' :: c :: inner ++ rest ↔ braced key <:+: rest := by
  have hbehind : braced key <:+: c :: inner ++ rest ↔ braced key <:+: rest :=
    infix_append_iff_of_notMem hc
  rw [List.cons_append, List.infix_cons_iff, hbehind, or_iff_right]
  intro hbegins
  have hbrace := (List.cons_prefix_cons.1 (List.cons_prefix_cons.1 hbegins).2).1
  exact hc (hbrace ▸ List.mem_cons_self)

theorem infix_chosen_iff (h : Referring chosen) :
    braced key <:+: chosen ++ rest ↔ braced key <:+: rest := by
  obtain ⟨c, inner, rfl, hc⟩ := h
  rw [List.cons_append, List.infix_cons_iff, infix_brace_iff hc, or_iff_right]
  intro hbegins
  cases (List.cons_prefix_cons.1 hbegins).1

theorem Writes.exists_braced (h : Writes name source) :
    ∃ c inner, source = braced (c :: inner) ∧ '{' ∉ c :: inner ∧ '}' ∉ c :: inner := by
  obtain ⟨before, behind, hbefore, hbehind, hname, hne, rfl⟩ := h
  have hplain (d : Char) (hblank : Text.isBlank d = false) (hnot : isNameChar d = false) :
      d ∉ before ++ name ++ behind := by
    intro hd
    rcases List.mem_append.1 hd with hd | hd
    · rcases List.mem_append.1 hd with hd | hd
      · exact Bool.false_ne_true (hblank.symm.trans (hbefore d hd))
      · exact Bool.false_ne_true (hnot.symm.trans (hname d hd))
    · exact Bool.false_ne_true (hblank.symm.trans (hbehind d hd))
  cases hinner : before ++ name ++ behind with
  | nil => simp [hne] at hinner
  | cons c inner =>
      rw [hinner] at hplain
      refine ⟨c, inner, ?_, hplain '{' rfl rfl, hplain '}' rfl rfl⟩
      rw [← hinner, braced]
      simp

theorem infix_placeholder_iff (hkey : '}' ∉ key) (h : Writes name source) :
    braced key <:+: source ++ rest ↔ braced key = source ∨ braced key <:+: rest := by
  obtain ⟨c, inner, rfl, hopen, hclose⟩ := h.exists_braced
  have hopen' : '{' ∉ c :: (inner ++ ['}', '}']) := by simpa using hopen
  have hsource : braced (c :: inner) ++ rest =
      '{' :: ('{' :: c :: (inner ++ ['}', '}']) ++ rest) := rfl
  rw [hsource, List.infix_cons_iff, infix_brace_iff hopen']
  refine or_congr_left ⟨?_, ?_⟩
  · rintro ⟨more, heq⟩
    have hends : key ++ '}' :: ('}' :: more) = (c :: inner) ++ '}' :: ('}' :: rest) := by
      simpa [braced] using heq
    -- what stands in the braces goes up to the first one that closes
    have hbefore {front : List Char} (h : '}' ∉ front) : ∀ d ∈ front, (d != '}') = true := by
      intro d hd
      exact bne_iff_ne.2 fun heq => h (heq ▸ hd)
    have hinner := congrArg (List.takeWhile (· != '}')) hends
    rw [List.takeWhile_append_of_pos (hbefore hkey),
      List.takeWhile_append_of_pos (hbefore hclose)] at hinner
    rw [show key = c :: inner by simpa using hinner]
  · intro heq
    exact ⟨rest, by rw [heq]; simp [braced]⟩

/-! ## Replaced templates -/

variable {choice : List Char → Option (List Char)}

theorem replace_nil : replace choice [] = [] := by
  rw [replace, segments_nil, List.flatMap_nil]

theorem replace_of_tag?_eq_none {c : Char} (h : tag? placeholderOpening (c :: rest) = none) :
    replace choice (c :: rest) = c :: replace choice rest := by
  rw [replace, segments_of_tag?_eq_none h, List.flatMap_cons]
  rfl

theorem replace_append_of_writes (h : Writes name source) :
    replace choice (source ++ rest) = (choice name).getD source ++ replace choice rest := by
  rw [replace, segments_append_of_writes h, List.flatMap_cons]
  rfl

/-- A text that neither opens a brace nor ends with a dollar sign begins what it began before. -/
theorem prefix_replace_iff (hchosen : ∀ name chosen, choice name = some chosen → Referring chosen)
    {start : List Char} (hopen : '{' ∉ start) (hend : start.getLast? ≠ some '$') :
    start <+: replace choice text ↔ start <+: text := by
  induction text using segments_induction generalizing start with
  | nil => rw [replace_nil]
  | literal c rest htag ih =>
      rw [replace_of_tag?_eq_none htag]
      cases start with
      | nil => simp
      | cons d start =>
          rw [List.cons_prefix_cons, List.cons_prefix_cons]
          refine and_congr_right fun _ => ih (fun hmem => hopen (List.mem_cons_of_mem _ hmem)) ?_
          intro hlast
          rw [List.getLast?_cons, hlast] at hend
          exact hend rfl
  | placeholder name source rest hwrites ih =>
      cases start with
      | nil => simp
      | cons d start =>
          obtain ⟨hd, hstart⟩ := not_or.1 (mt List.mem_cons.2 hopen)
          have hsource (behind : List Char) : ¬ d :: start <+: source ++ behind := by
            obtain ⟨c, inner, rfl, -⟩ := hwrites.exists_braced
            exact fun h => hd (List.cons_prefix_cons.1 h).1.symm
          rw [replace_append_of_writes hwrites, iff_false_intro (hsource rest), iff_false]
          cases hname : choice name with
          | none => exact hsource _
          | some chosen =>
              obtain ⟨e, inner, rfl, -⟩ := hchosen name chosen hname
              rw [Option.getD_some, List.cons_append, List.cons_prefix_cons]
              rintro ⟨rfl, hbegins⟩
              cases start with
              | nil => exact hend rfl
              | cons e start =>
                  exact hstart ((List.cons_prefix_cons.1 hbegins).1 ▸ List.mem_cons_self)

theorem brace_prefix_replace_iff
    (hchosen : ∀ name chosen, choice name = some chosen → Referring chosen)
    {start : List Char} (hne : start ≠ []) (hopen : '{' ∉ start)
    (hend : start.getLast? ≠ some '$') :
    '{' :: start <+: replace choice text ↔ '{' :: start <+: text := by
  induction text using segments_induction with
  | nil => rw [replace_nil]
  | literal d rest htag =>
      rw [replace_of_tag?_eq_none htag, List.cons_prefix_cons, List.cons_prefix_cons,
        prefix_replace_iff hchosen hopen hend]
  | placeholder name source rest hwrites =>
      have hsource (behind : List Char) : ¬ '{' :: start <+: source ++ behind := by
        obtain ⟨c, more, rfl⟩ := List.exists_cons_of_ne_nil hne
        obtain ⟨d, inner, rfl, -⟩ := hwrites.exists_braced
        intro h
        have hc := (List.cons_prefix_cons.1 (List.cons_prefix_cons.1 h).2).1
        exact hopen (hc ▸ List.mem_cons_self)
      rw [replace_append_of_writes hwrites, iff_false_intro (hsource rest), iff_false]
      cases hname : choice name with
      | none => exact hsource _
      | some chosen =>
          obtain ⟨d, inner, rfl, -⟩ := hchosen name chosen hname
          intro h
          cases (List.cons_prefix_cons.1 h).1

/--
A text in braces is there behind the replacement if it was there before and is
no placeholder that was replaced.
-/
theorem braced_infix_replace_iff
    (hchosen : ∀ name chosen, choice name = some chosen → Referring chosen)
    (hopen : '{' ∉ key) (hclose : '}' ∉ key) (text : List Char) :
    braced key <:+: replace choice text ↔ braced key <:+: text ∧
      ∀ name, Writes name (braced key) → choice name = none := by
  induction text using segments_induction with
  | nil => simp [replace_nil, braced]
  | literal c rest htag ih =>
      have hstart : braced key <+: c :: replace choice rest ↔ braced key <+: c :: rest := by
        rw [braced, List.cons_prefix_cons, List.cons_prefix_cons]
        refine and_congr_right fun _ => brace_prefix_replace_iff hchosen ?_ ?_ ?_
        · simp
        · simpa using hopen
        · simp
      have hnone (hbegins : braced key <+: c :: rest) (name : List Char) :
          ¬ Writes name (braced key) := by
        intro hwrites
        obtain ⟨more, hmore⟩ := hbegins
        rw [← hmore, hwrites.tag?] at htag
        cases htag
      rw [replace_of_tag?_eq_none htag, List.infix_cons_iff, List.infix_cons_iff, ih, hstart,
        or_and_right]
      refine or_congr_left ⟨fun h => ⟨h, fun name hwrites => ?_⟩, fun h => h.1⟩
      exact absurd hwrites (hnone h name)
  | placeholder name source rest hwrites ih =>
      rw [replace_append_of_writes hwrites, infix_placeholder_iff hclose hwrites]
      cases hname : choice name with
      | none =>
          rw [Option.getD_none, infix_placeholder_iff hclose hwrites, ih, or_and_right]
          refine or_congr_left ⟨?_, fun h => h.1⟩
          rintro rfl
          refine ⟨rfl, fun other hother => ?_⟩
          obtain rfl : other = name :=
            (Prod.mk.inj (Option.some.inj ((hother.tag? []).symm.trans (hwrites.tag? [])))).1
          exact hname
      | some chosen =>
          rw [Option.getD_some, infix_chosen_iff (hchosen name chosen hname), ih, or_and_right]
          refine (or_iff_right ?_).symm
          rintro ⟨rfl, hall⟩
          rw [hall name hwrites] at hname
          cases hname

end Playbook.Template
