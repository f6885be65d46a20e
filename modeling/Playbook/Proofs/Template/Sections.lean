import Mathlib.Data.List.Infix
import Playbook.Filling
import Playbook.Proofs.Template

/-!
# Sections as trees

A template in which no section has a section of its own name inside is a tree
of plain texts and sections. Resolving the sections of the written tree gives
the texts that the tree keeps. No mark of a section is among them, but where
sections are taken away, texts come to stand next to each other, and the end
of one and the beginning of the next may be a mark together.
-/

namespace Playbook.Template

/-! ## Section marks -/

/-- The text that opens or closes a section. -/
def IsSectionMark (mark : List Char) : Prop :=
  ∃ name, IsTag sectionOpening name mark ∨ IsTag sectionClosing name mark

/-- No section mark stands in a text. -/
def MarkFree (text : List Char) : Prop := ∀ mark, IsSectionMark mark → ¬ mark <:+: text

/-- Neither an opener nor a closer is read where no mark begins. -/
theorem tags_eq_none_iff {text : List Char} :
    tag? sectionOpening text = none ∧ tag? sectionClosing text = none ↔
      ∀ mark, IsSectionMark mark → ¬ mark <+: text := by
  constructor
  · rintro ⟨hopening, hclosing⟩ mark ⟨name, hmark | hmark⟩ ⟨rest, rfl⟩
    · rw [hmark.tag?] at hopening
      cases hopening
    · rw [hmark.tag?] at hclosing
      cases hclosing
  · intro h
    have hnone {opening : List Char} (hmark : ∀ name mark, IsTag opening name mark →
        IsSectionMark mark) : tag? opening text = none := by
      by_contra hfound
      obtain ⟨⟨name, rest⟩, hfound⟩ := Option.ne_none_iff_exists'.1 hfound
      obtain ⟨mark, htag, rfl⟩ := exists_isTag hfound
      exact h mark (hmark name mark htag) (List.prefix_append _ _)
    exact ⟨hnone fun name _ htag => ⟨name, .inl htag⟩, hnone fun name _ htag => ⟨name, .inr htag⟩⟩

theorem markFree_iff {text : List Char} :
    MarkFree text ↔ ∀ rest ∈ text.tails,
      tag? sectionOpening rest = none ∧ tag? sectionClosing rest = none := by
  simp only [tags_eq_none_iff, List.mem_tails]
  constructor
  · intro h rest hrest mark hmark hahead
    exact h mark hmark (hahead.isInfix.trans hrest.isInfix)
  · intro h mark hmark hwithin
    obtain ⟨rest, hahead, hrest⟩ := List.infix_iff_prefix_suffix.1 hwithin
    exact h rest hrest mark hmark hahead

instance (text : List Char) : Decidable (MarkFree text) := decidable_of_iff _ markFree_iff.symm

theorem MarkFree.suffix {text back : List Char} (h : MarkFree text) (hback : back <:+ text) :
    MarkFree back :=
  fun mark hmark hwithin => h mark hmark (hwithin.trans hback.isInfix)

/-- Only the first two characters of a section mark are opening braces. -/
theorem IsSectionMark.exists_eq {mark : List Char} (h : IsSectionMark mark) :
    ∃ more, mark = '{' :: '{' :: more ∧ more ≠ [] ∧ '{' ∉ more := by
  have htag {kind : Char} (hkind : kind ≠ '{') {name : List Char}
      (htag : IsTag ['{', '{', kind] name mark) :
      ∃ more, mark = '{' :: '{' :: more ∧ more ≠ [] ∧ '{' ∉ more := by
    obtain ⟨before, behind, hbefore, hbehind, hname, -, rfl⟩ := htag
    refine ⟨kind :: before ++ name ++ behind ++ ['}', '}'], rfl, by simp, fun hmem => ?_⟩
    simp only [List.mem_append, List.mem_cons, or_assoc] at hmem
    rcases hmem with hmem | hmem | hmem | hmem | hmem
    · exact hkind hmem.symm
    · exact absurd (hbefore _ hmem) (by decide)
    · exact absurd (hname _ hmem) (by decide)
    · exact absurd (hbehind _ hmem) (by decide)
    · simp at hmem
  obtain ⟨name, hopening | hclosing⟩ := h
  · exact htag (by decide) hopening
  · exact htag (by decide) hclosing

/-- What stands behind a text in a template: nothing, or a section mark. -/
def Parts (tail : List Char) : Prop := tail = [] ∨ ['{', '{'] <+: tail

theorem parts_nil : Parts [] := .inl rfl

theorem IsSectionMark.parts {mark : List Char} (h : IsSectionMark mark) (rest : List Char) :
    Parts (mark ++ rest) := by
  obtain ⟨more, rfl, -, -⟩ := h.exists_eq
  exact .inr ⟨more ++ rest, rfl⟩

/-- A section mark that begins in a text does not reach into the mark behind it. -/
theorem IsSectionMark.prefix_of_parts {mark text tail : List Char} (h : IsSectionMark mark)
    (hne : text ≠ []) (htail : Parts tail) (hahead : mark <+: text ++ tail) : mark <+: text := by
  rcases List.prefix_or_prefix_of_prefix hahead (List.prefix_append text tail) with hin | hout
  · exact hin
  obtain ⟨rest, rfl⟩ := hout
  rw [List.prefix_append_right_inj] at hahead
  cases rest with
  | nil => simp
  | cons c rest =>
      obtain ⟨more, hmark, hmore, hbrace⟩ := h.exists_eq
      obtain ⟨behind, rfl⟩ : ∃ behind, tail = '{' :: '{' :: behind := by
        rcases htail with rfl | ⟨behind, rfl⟩
        · exact absurd (List.prefix_nil.1 hahead) (List.cons_ne_nil _ _)
        · exact ⟨behind, rfl⟩
      obtain ⟨rfl, hrest⟩ := List.cons_prefix_cons.1 hahead
      -- The mark has no brace behind its second character, so all of it but one stands behind.
      cases text with
      | nil => exact absurd rfl hne
      | cons first text =>
          obtain ⟨-, hmark⟩ := List.cons.inj hmark
          cases text with
          | cons second text =>
              obtain ⟨-, rfl⟩ := List.cons.inj hmark
              simp at hbrace
          | nil =>
              obtain ⟨-, rfl⟩ := List.cons.inj hmark
              cases rest with
              | nil => exact absurd rfl hmore
              | cons d rest =>
                  obtain ⟨rfl, -⟩ := List.cons_prefix_cons.1 hrest
                  simp at hbrace

theorem MarkFree.tags_eq_none {text tail : List Char} (h : MarkFree text) (hne : text ≠ [])
    (htail : Parts tail) :
    tag? sectionOpening (text ++ tail) = none ∧ tag? sectionClosing (text ++ tail) = none :=
  tags_eq_none_iff.2 fun mark hmark hahead =>
    h mark hmark (hmark.prefix_of_parts hne htail hahead).isInfix

/-- Inside of a mark no other one begins. -/
theorem IsSectionMark.tags_eq_none {mark back : List Char} (h : IsSectionMark mark)
    (hback : back <:+ mark) (hproper : back ≠ mark) (hne : back ≠ []) (rest : List Char) :
    tag? sectionOpening (back ++ rest) = none ∧ tag? sectionClosing (back ++ rest) = none := by
  obtain ⟨more, rfl, hmore, hbrace⟩ := h.exists_eq
  refine tags_eq_none_iff.2 fun other hother hahead => ?_
  obtain ⟨others, rfl, -, -⟩ := hother.exists_eq
  rcases List.suffix_cons_iff.1 hback with rfl | hback
  · exact hproper rfl
  rcases List.suffix_cons_iff.1 hback with rfl | hback
  · obtain ⟨c, more, rfl⟩ := List.exists_cons_of_ne_nil hmore
    obtain ⟨rfl, -⟩ := List.cons_prefix_cons.1 (List.cons_prefix_cons.1 hahead).2
    simp at hbrace
  · obtain ⟨c, back, rfl⟩ := List.exists_cons_of_ne_nil hne
    obtain ⟨rfl, -⟩ := List.cons_prefix_cons.1 hahead
    exact hbrace (hback.subset List.mem_cons_self)

/-! ## Texts that are passed over -/

/-- Looking for the closer of a section passes over a text in which it does not begin. -/
theorem body?_append {name text tail : List Char}
    (h : ∀ back, back <:+ text → back ≠ [] → ∀ rest,
      tag? sectionClosing (back ++ tail) ≠ some (name, rest)) :
    body? name (text ++ tail) = (body? name tail).map fun found => (text ++ found.1, found.2) := by
  induction text with
  | nil => simp
  | cons c text ih =>
      have hrest := ih fun back hback => h back (hback.trans (List.suffix_cons _ _))
      have hstep : body? name (c :: (text ++ tail)) =
          (body? name (text ++ tail)).map fun found => (c :: found.1, found.2) := by
        rw [body?]
        split
        · rename_i closed rest htag
          rw [if_neg]
          rintro rfl
          exact h (c :: text) List.suffix_rfl (List.cons_ne_nil _ _) rest htag
        · rfl
      rw [List.cons_append, hstep, hrest, Option.map_map]
      rfl

theorem body?_closer {name closer : List Char} (h : IsTag sectionClosing name closer)
    (rest : List Char) : body? name (closer ++ rest) = some ([], rest) := by
  have htag := h.tag? rest
  obtain ⟨more, rfl, -, -⟩ := IsSectionMark.exists_eq ⟨name, .inr h⟩
  rw [List.cons_append] at htag ⊢
  rw [body?, htag]
  simp

variable {counts : List Char → Bool}

theorem resolveSections_of_section? {text : List Char} {s : Section} (h : section? text = some s) :
    resolveSections counts text =
      (if counts s.name then resolveSections counts s.body else []) ++
        resolveSections counts s.rest := by
  cases text with
  | nil =>
      have hshort := (length_section? h).1
      simp at hshort
  | cons c text =>
      rw [resolveSections]
      split
      · rename_i found hfound
        rw [h] at hfound
        cases hfound
        rfl
      · simp_all

theorem section?_eq_none {text : List Char}
    (h : tag? sectionOpening text = none) : section? text = none := by
  rw [section?, h]
  rfl

/-- Resolving sections leaves a text alone in which no opener begins. -/
theorem resolveSections_append {text tail : List Char}
    (h : ∀ back, back <:+ text → back ≠ [] → tag? sectionOpening (back ++ tail) = none) :
    resolveSections counts (text ++ tail) = text ++ resolveSections counts tail := by
  induction text with
  | nil => rfl
  | cons c text ih =>
      have hrest := ih fun back hback => h back (hback.trans (List.suffix_cons _ _))
      have hnone := section?_eq_none (h (c :: text) List.suffix_rfl (List.cons_ne_nil _ _))
      rw [List.cons_append] at hnone ⊢
      rw [resolveSections]
      split
      · simp_all
      · rw [hrest]
        rfl

/-! ## Trees -/

structure PlainText where
  chars : List Char
  markFree : MarkFree chars

/-- The marks of a section, with any blanks around its name. -/
structure Frame where
  name : List Char
  opener : List Char
  closer : List Char
  isOpener : IsTag sectionOpening name opener
  isCloser : IsTag sectionClosing name closer

theorem Frame.isMark_opener (frame : Frame) : IsSectionMark frame.opener :=
  ⟨frame.name, .inl frame.isOpener⟩

theorem Frame.isMark_closer (frame : Frame) : IsSectionMark frame.closer :=
  ⟨frame.name, .inr frame.isCloser⟩

/-- A plain text, or one in front of a section with what stands in it and behind it. -/
inductive Markup where
  | text (plain : PlainText)
  | part (before : PlainText) (frame : Frame) (body rest : Markup)

namespace Markup

def print : Markup → List Char
  | .text plain => plain.chars
  | .part before frame body rest =>
      before.chars ++ (frame.opener ++ (body.print ++ (frame.closer ++ rest.print)))

/-- The names of the sections, those inside of others included. -/
def names : Markup → List (List Char)
  | .text _ => []
  | .part _ frame body rest => frame.name :: (body.names ++ rest.names)

/-- No section has one of its own name inside. -/
def Proper : Markup → Prop
  | .text _ => True
  | .part _ frame body rest => frame.name ∉ body.names ∧ body.Proper ∧ rest.Proper

/-- What is left if a section stays with what is left of its body where its name counts. -/
def evaluate (counts : List Char → Bool) : Markup → List Char
  | .text plain => plain.chars
  | .part before frame body rest =>
      before.chars ++ (if counts frame.name then body.evaluate counts else []) ++
        rest.evaluate counts

/-- The plain texts that are left, in order. -/
def kept (counts : List Char → Bool) : Markup → List PlainText
  | .text plain => [plain]
  | .part before frame body rest =>
      before :: (if counts frame.name then body.kept counts else []) ++ rest.kept counts

theorem flatMap_kept (counts : List Char → Bool) (t : Markup) :
    (t.kept counts).flatMap (·.chars) = t.evaluate counts := by
  induction t with
  | text plain => simp [kept, evaluate]
  | part before frame body rest ihbody ihrest =>
      cases hcounts : counts frame.name <;> simp [kept, evaluate, hcounts, ihbody, ihrest]

/-- A closer is not found in a tree that has no section of its name. -/
theorem body?_print {name : List Char} {t : Markup} (h : name ∉ t.names) {tail : List Char}
    (htail : Parts tail) :
    body? name (t.print ++ tail) =
      (body? name tail).map fun found => (t.print ++ found.1, found.2) := by
  induction t generalizing tail with
  | text plain =>
      refine body?_append fun back hback hne rest => ?_
      rw [((plain.markFree.suffix hback).tags_eq_none hne htail).2]
      exact nofun
  | part before frame body rest ihbody ihrest =>
      simp only [names, List.mem_cons, List.mem_append, not_or] at h
      obtain ⟨hname, hbody, hrest⟩ := h
      have hplain (tail : List Char) (htail : Parts tail) :
          body? name (before.chars ++ tail) = (body? name tail).map fun found =>
            (before.chars ++ found.1, found.2) := by
        refine body?_append fun back hback hne rest => ?_
        rw [((before.markFree.suffix hback).tags_eq_none hne htail).2]
        exact nofun
      have hopener (tail : List Char) : body? name (frame.opener ++ tail) =
          (body? name tail).map fun found => (frame.opener ++ found.1, found.2) := by
        refine body?_append fun back hback hne rest => ?_
        by_cases hwhole : back = frame.opener
        · obtain ⟨_, _, -, -, -, -, hopens⟩ := frame.isOpener
          rw [hwhole, tag?_eq_none]
          · exact nofun
          · rw [hopens]
            simp [sectionOpening, sectionClosing]
        · rw [(frame.isMark_opener.tags_eq_none hback hwhole hne tail).2]
          exact nofun
      have hcloser (tail : List Char) : body? name (frame.closer ++ tail) =
          (body? name tail).map fun found => (frame.closer ++ found.1, found.2) := by
        refine body?_append fun back hback hne rest => ?_
        by_cases hwhole : back = frame.closer
        · rw [hwhole, frame.isCloser.tag?]
          rintro ⟨⟩
          exact hname rfl
        · rw [(frame.isMark_closer.tags_eq_none hback hwhole hne tail).2]
          exact nofun
      simp only [print, List.append_assoc]
      rw [hplain _ (frame.isMark_opener.parts _), hopener,
        ihbody hbody (frame.isMark_closer.parts _), hcloser, ihrest hrest htail]
      simp [Option.map_map, Function.comp_def]

theorem section?_frame (frame : Frame) {body : Markup} (h : frame.name ∉ body.names)
    (rest : List Char) : section? (frame.opener ++ (body.print ++ (frame.closer ++ rest))) =
      some ⟨frame.name, body.print, rest⟩ := by
  have hbody := body?_print h (frame.isMark_closer.parts rest)
  rw [body?_closer frame.isCloser, Option.map_some, List.append_nil] at hbody
  simp [section?, frame.isOpener.tag?, hbody]

theorem resolveSections_print {t : Markup} (h : t.Proper) :
    resolveSections counts t.print = t.evaluate counts := by
  have hplain (plain : PlainText) {tail : List Char} (htail : Parts tail) :
      resolveSections counts (plain.chars ++ tail) = plain.chars ++ resolveSections counts tail :=
    resolveSections_append fun back hback hne =>
      ((plain.markFree.suffix hback).tags_eq_none hne htail).1
  induction t with
  | text plain =>
      have hwhole := hplain plain parts_nil
      rw [List.append_nil, resolveSections, List.append_nil] at hwhole
      exact hwhole
  | part before frame body rest ihbody ihrest =>
      obtain ⟨hname, hbody, hrest⟩ := h
      rw [print, hplain before (frame.isMark_opener.parts _),
        resolveSections_of_section? (section?_frame frame hname rest.print), ihbody hbody,
        ihrest hrest, evaluate, List.append_assoc]

end Markup

/-! ## Marks that come about -/

/-- A mark of which one text has the beginning and the texts behind it the rest. -/
def Spliced (mark : List Char) (texts : List PlainText) : Prop :=
  ∃ ahead plain behind start rest, texts = ahead ++ plain :: behind ∧ mark = start ++ rest ∧
    start ≠ [] ∧ rest ≠ [] ∧ start <:+ plain.chars ∧ rest <+: behind.flatMap (·.chars)

theorem infix_flatMap_iff {mark : List Char} (h : IsSectionMark mark) (texts : List PlainText) :
    mark <:+: texts.flatMap (·.chars) ↔ Spliced mark texts := by
  constructor
  · intro hwithin
    induction texts with
    | nil =>
        obtain ⟨more, rfl, -, -⟩ := h.exists_eq
        exact absurd (List.infix_nil.1 hwithin) (List.cons_ne_nil _ _)
    | cons plain texts ih =>
        have hlater (hbehind : mark <:+: texts.flatMap (·.chars)) :
            Spliced mark (plain :: texts) := by
          obtain ⟨ahead, other, behind, start, rest, rfl, hspliced⟩ := ih hbehind
          exact ⟨plain :: ahead, other, behind, start, rest, rfl, hspliced⟩
        rw [List.flatMap_cons, List.infix_append_iff] at hwithin
        rcases hwithin with hin | hbehind | ⟨start, rest, rfl, hstart, hrest⟩
        · exact absurd hin (plain.markFree mark h)
        · exact hlater hbehind
        · by_cases hnone : start = []
          · subst hnone
            exact hlater hrest.isInfix
          · refine ⟨[], plain, texts, start, rest, rfl, rfl, hnone, ?_, hstart, hrest⟩
            rintro rfl
            rw [List.append_nil] at h
            exact plain.markFree start h hstart.isInfix
  · rintro ⟨ahead, plain, behind, start, rest, rfl, rfl, -, -, ⟨front, hfront⟩, ⟨back, hback⟩⟩
    refine ⟨ahead.flatMap (·.chars) ++ front, back, ?_⟩
    simp [← hfront, ← hback]

namespace Markup

/--
Resolving the sections of a written tree gives what the tree evaluates to: its
plain texts but for those in sections that are dropped. So a mark that is left
is none of the tree's own: a plain text that is left has its beginning, and
those behind it have its rest. None is left if no plain text that is left ends
with the beginning of a mark.
-/
theorem renderSections_print {t : Markup} (h : t.Proper) (values : Entries) :
    renderSections (String.ofList t.print) values =
      String.ofList (t.evaluate (countsIn values)) ∧
    t.evaluate (countsIn values) = (t.kept (countsIn values)).flatMap (·.chars) ∧
    (∀ mark, IsSectionMark mark →
      (mark <:+: t.evaluate (countsIn values) ↔ Spliced mark (t.kept (countsIn values)))) ∧
    ((∀ plain ∈ t.kept (countsIn values), ∀ start rest, IsSectionMark (start ++ rest) →
        start <:+ plain.chars → start = [] ∨ rest = []) →
      MarkFree (t.evaluate (countsIn values))) := by
  have hmarks (mark : List Char) (hmark : IsSectionMark mark) :
      mark <:+: t.evaluate (countsIn values) ↔ Spliced mark (t.kept (countsIn values)) := by
    rw [← flatMap_kept, infix_flatMap_iff hmark]
  refine ⟨?_, (flatMap_kept _ t).symm, hmarks, fun hends mark hmark hwithin => ?_⟩
  · rw [renderSections, String.toList_ofList, resolveSections_print h]
  · obtain ⟨ahead, plain, behind, start, rest, hkept, rfl, hstart, hrest, hbehind, -⟩ :=
      (hmarks mark hmark).1 hwithin
    rcases hends plain (by simp [hkept]) start rest hmark hbehind with hnone | hnone
    · exact hstart hnone
    · exact hrest hnone

/-- The frame of a section without blanks in its marks. -/
def plainFrame (name : List Char) (h : name ≠ [] ∧ name.all isNameChar) : Frame where
  name := name
  opener := sectionOpening ++ [] ++ name ++ [] ++ ['}', '}']
  closer := sectionClosing ++ [] ++ name ++ [] ++ ['}', '}']
  isOpener := ⟨[], [], nofun, nofun, List.all_eq_true.1 h.2, h.1, rfl⟩
  isCloser := ⟨[], [], nofun, nofun, List.all_eq_true.1 h.2, h.1, rfl⟩

/-- A section in a section, and a brace in front of its marks. -/
def nestedMarkup : Markup :=
  .part ⟨"Fix".toList, by decide⟩ (plainFrame "file".toList (by decide))
    (.part ⟨" in \x7b\x7bfile\x7d\x7d \x7b".toList, by decide⟩
      (plainFrame "line".toList (by decide))
      (.text ⟨":\x7b\x7bline\x7d\x7d".toList, by decide⟩)
      (.text ⟨"\x7d".toList, by decide⟩))
    (.text ⟨".".toList, by decide⟩)

theorem renderSections_print_nested :
    nestedMarkup.Proper ∧
    String.ofList nestedMarkup.print =
      "Fix\x7b\x7b#file\x7d\x7d in \x7b\x7bfile\x7d\x7d \x7b\x7b\x7b#line\x7d\x7d:" ++
        "\x7b\x7bline\x7d\x7d\x7b\x7b/line\x7d\x7d\x7d\x7b\x7b/file\x7d\x7d." ∧
    renderSections (String.ofList nestedMarkup.print)
        [(.text "file", .text "app.py"), (.text "line", .text "")] =
      "Fix in \x7b\x7bfile\x7d\x7d \x7b\x7d." ∧
    ∀ mark, IsSectionMark mark → (mark <:+: "Fix in \x7b\x7bfile\x7d\x7d \x7b\x7d.".toList ↔
      Spliced mark (nestedMarkup.kept
        (countsIn [(.text "file", .text "app.py"), (.text "line", .text "")]))) := by
  have hproper : nestedMarkup.Proper := by
    refine ⟨by decide, ⟨by decide, trivial, trivial⟩, trivial⟩
  have heval : nestedMarkup.evaluate
      (countsIn [(.text "file", .text "app.py"), (.text "line", .text "")]) =
        "Fix in \x7b\x7bfile\x7d\x7d \x7b\x7d.".toList := by
    decide +kernel
  obtain ⟨hrender, -, hmarks, -⟩ := renderSections_print hproper
    [(.text "file", .text "app.py"), (.text "line", .text "")]
  rw [heval] at hrender hmarks
  exact ⟨hproper, by decide +kernel, hrender, hmarks⟩

/-- A section between the two halves of an opener. -/
def splicedMarkup : Markup :=
  .part ⟨['{'], by decide⟩ (plainFrame ['n'] (by decide)) (.text ⟨['x'], by decide⟩)
    (.text ⟨['{', '#', 'b', '}', '}'], by decide⟩)

/-- A section that is dropped may leave a mark behind that was not there before. -/
theorem exists_mark_renderSections :
    ∃ t : Markup, t.Proper ∧ ∃ (values : Entries) (mark : List Char), IsSectionMark mark ∧
      mark <:+: (renderSections (String.ofList t.print) values).toList := by
  have hproper : splicedMarkup.Proper := ⟨by decide, trivial, trivial⟩
  have hmark : IsSectionMark ['{', '{', '#', 'b', '}', '}'] :=
    ⟨['b'], .inl (plainFrame ['b'] (by decide)).isOpener⟩
  refine ⟨splicedMarkup, hproper, [], _, hmark, ?_⟩
  rw [renderSections, String.toList_ofList, String.toList_ofList, resolveSections_print hproper]
  decide +kernel

end Markup

end Playbook.Template
