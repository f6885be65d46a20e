import Playbook.Text.Basic

/-!
# Pieces of a text

The pieces between the occurrences of a character, the lines of a text that
was joined from parts, and what is left when blanks at the end go away.
-/

namespace Playbook.Text

/-- Pieces are what the library splits lists into. -/
theorem pieces_eq_splitOn (separator : Char) (text : List Char) :
    pieces separator text = text.splitOn separator := by
  induction text with
  | nil => rfl
  | cons c text ih =>
      rw [pieces, List.splitOn_cons_eq_if_modifyHead, ih]
      by_cases hc : c = separator
      · simp [hc]
      · rw [if_neg hc, if_neg (by simpa using hc)]
        cases hsplit : text.splitOn separator with
        | nil => exact absurd hsplit (List.splitOn_ne_nil separator text)
        | cons first others => rfl

theorem pieces_ne_nil (separator : Char) (text : List Char) : pieces separator text ≠ [] := by
  rw [pieces_eq_splitOn]
  exact List.splitOn_ne_nil separator text

theorem pieces_of_notMem {separator : Char} {text : List Char} (h : separator ∉ text) :
    pieces separator text = [text] := by
  rw [pieces_eq_splitOn, List.splitOn_eq_singleton h]

theorem pieces_append_cons (separator : Char) (front rest : List Char) :
    pieces separator (front ++ separator :: rest) =
      pieces separator front ++ pieces separator rest := by
  simp only [pieces_eq_splitOn, List.splitOn_append_cons_self]

theorem pieces_of_front {separator : Char} {front : List Char} (h : separator ∉ front)
    (rest : List Char) :
    pieces separator (front ++ separator :: rest) = front :: pieces separator rest := by
  rw [pieces_append_cons, pieces_of_notMem h, List.singleton_append]

/-- A text is a piece, or it has a piece in front of a separator and a shorter text behind. -/
theorem pieces_induction (separator : Char) {motive : List Char → Prop}
    (whole : ∀ text, separator ∉ text → motive text)
    (divided : ∀ front rest, separator ∉ front → motive rest → motive (front ++ separator :: rest))
    (text : List Char) : motive text := by
  by_cases h : separator ∈ text
  · obtain ⟨front, rest, htext, hfront⟩ := List.eq_append_cons_of_mem h
    rw [htext]
    exact divided front rest hfront (pieces_induction separator whole divided rest)
  · exact whole text h
termination_by text.length
decreasing_by
  rw [htext, List.length_append, List.length_cons]
  omega

/-- A text without the separator goes to the first piece of what is behind it. -/
theorem pieces_append_of_notMem {separator : Char} {front text first : List Char}
    {others : List (List Char)} (h : separator ∉ front)
    (htext : pieces separator text = first :: others) :
    pieces separator (front ++ text) = (front ++ first) :: others := by
  cases text using pieces_induction separator with
  | whole text hwhole =>
      rw [pieces_of_notMem hwhole] at htext
      cases htext
      rw [pieces_of_notMem (mt List.mem_append.1 (not_or.2 ⟨h, hwhole⟩))]
  | divided other rest hother _ =>
      rw [pieces_of_front hother] at htext
      cases htext
      rw [← List.append_assoc, pieces_of_front (mt List.mem_append.1 (not_or.2 ⟨h, hother⟩))]

theorem notMem_of_mem_pieces {separator : Char} {text piece : List Char}
    (h : piece ∈ pieces separator text) : separator ∉ piece := by
  induction text using pieces_induction separator with
  | whole text htext =>
      rw [pieces_of_notMem htext] at h
      rwa [List.mem_singleton.1 h]
  | divided front rest hfront ih =>
      rw [pieces_of_front hfront] at h
      rcases List.mem_cons.1 h with rfl | h
      · exact hfront
      · exact ih h

theorem mem_pieces (separator : Char) {c : Char} {text : List Char} (h : c ∈ text) :
    c = separator ∨ ∃ piece ∈ pieces separator text, c ∈ piece := by
  induction text using pieces_induction separator with
  | whole text htext => exact .inr ⟨text, by rw [pieces_of_notMem htext]; simp, h⟩
  | divided front rest hfront ih =>
      rw [pieces_of_front hfront]
      rcases List.mem_append.1 h with h | h
      · exact .inr ⟨front, List.mem_cons_self, h⟩
      · rcases List.mem_cons.1 h with rfl | h
        · exact .inl rfl
        · refine (ih h).imp_right ?_
          rintro ⟨piece, hpiece, hc⟩
          exact ⟨piece, List.mem_cons_of_mem front hpiece, hc⟩

/-- The last piece ends in what a text ends in. -/
theorem getLast?_pieces {separator : Char} {ending : List Char} (h : separator ∉ ending)
    (text : List Char) : ∃ front, (pieces separator (text ++ ending)).getLast? =
      some (front ++ ending) := by
  induction text using pieces_induction separator with
  | whole text htext =>
      rw [pieces_of_notMem (mt List.mem_append.1 (not_or.2 ⟨htext, h⟩))]
      exact ⟨text, rfl⟩
  | divided front rest hfront ih =>
      obtain ⟨last, hlast⟩ := ih
      rw [List.append_assoc, List.cons_append, pieces_of_front hfront, List.getLast?_cons, hlast]
      exact ⟨last, rfl⟩

theorem split_of_notMem {separator : Char} {text : String} (h : separator ∉ text.toList) :
    split separator text = [text] := by
  rw [split, pieces_of_notMem h, List.map_singleton, String.ofList_toList]

/-! ## Lines -/

theorem toList_join_lines (line : String) (lines : List String) :
    (join "\n" (line :: lines) ++ "\n").toList =
      (line :: lines).flatMap fun line => line.toList ++ ['\n'] := by
  induction lines generalizing line with
  | nil => simp [join]
  | cons other lines ih =>
      have hrest := ih other
      rw [join, String.intercalate_cons_cons, ← join, String.append_assoc, String.append_assoc,
        String.toList_append, String.toList_append, hrest]
      simp

theorem pieces_lines (lines : List String) :
    pieces '\n' (lines.flatMap fun line => line.toList ++ ['\n']) =
      (lines.flatMap fun line => pieces '\n' line.toList) ++ [[]] := by
  induction lines with
  | nil => rfl
  | cons line lines ih =>
      rw [List.flatMap_cons, List.append_assoc, List.singleton_append, pieces_append_cons, ih,
        List.flatMap_cons, List.append_assoc]

theorem split_join {lines : List String} (h : lines ≠ []) :
    split '\n' (join "\n" lines ++ "\n") = lines.flatMap (split '\n') ++ [""] := by
  obtain ⟨first, rest, rfl⟩ := List.exists_cons_of_ne_nil h
  rw [split, toList_join_lines, pieces_lines, List.map_append, List.map_flatMap]
  rfl

theorem join_append {lines others : List String} (h : lines ≠ []) (hothers : others ≠ []) :
    join "\n" (lines ++ others) ++ "\n" =
      (join "\n" lines ++ "\n") ++ (join "\n" others ++ "\n") := by
  obtain ⟨line, lines, rfl⟩ := List.exists_cons_of_ne_nil h
  obtain ⟨other, others, rfl⟩ := List.exists_cons_of_ne_nil hothers
  apply String.toList_inj.1
  rw [List.cons_append, toList_join_lines, ← List.cons_append, List.flatMap_append,
    ← toList_join_lines, ← toList_join_lines, ← String.toList_append]

/-- A line without a line end stands among the lines of what it is joined with. -/
theorem split_join_lines {line : String} (h : '\n' ∉ line.toList) (before after : List String) :
    split '\n' (join "\n" (before ++ line :: after) ++ "\n") =
      before.flatMap (split '\n') ++ line :: (after.flatMap (split '\n') ++ [""]) := by
  rw [split_join (by simp), List.flatMap_append, List.flatMap_cons, split_of_notMem h]
  simp

/-! ## Blanks at the end -/

/-- They go away only up to a character that is none. -/
theorem trimRight_append_cons {c : Char} (hc : isBlank c = false) (front text : List Char) :
    trimRight (front ++ c :: text) = front ++ c :: trimRight text := by
  rw [trimRight, trimRight, List.reverse_append, List.reverse_cons, List.append_assoc,
    List.dropWhile_append]
  split
  · rename_i hempty
    rw [List.isEmpty_iff] at hempty
    simp [hempty, hc]
  · simp

theorem mem_of_mem_trimRight {c : Char} {text : List Char} (h : c ∈ trimRight text) : c ∈ text := by
  rw [trimRight, List.mem_reverse] at h
  exact List.mem_reverse.1 ((List.dropWhile_sublist isBlank).subset h)

end Playbook.Text
