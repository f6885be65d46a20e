import Playbook.Text.Basic

/-!
# Templates

A template holds placeholders `{{name}}` and sections
`{{#name}} … {{/name}}`. A name is a run of letters, digits, underscores,
points and hyphens; blanks may stand around it inside the braces.

Sections are resolved first: a section goes from its opener to the nearest
closer of the same name, and its body stays if the name has a value that
counts. The text that is left is cut into `segments`, and only these are
replaced, so inserted values are never looked at again.
-/

namespace Playbook.Template

def isNameChar (c : Char) : Bool :=
  (decide ('a' ≤ c) && decide (c ≤ 'z')) || (decide ('A' ≤ c) && decide (c ≤ 'Z')) ||
    (decide ('0' ≤ c) && decide (c ≤ '9')) || c == '_' || c == '.' || c == '-'

/-- The text behind a start that it has to have. -/
def after? : List Char → List Char → Option (List Char)
  | [], text => some text
  | _ :: _, [] => none
  | m :: mark, c :: text => if m = c then after? mark text else none

/-- A tag at the start of a text: its name, and the text behind it. -/
def tag? (opening : List Char) (text : List Char) : Option (List Char × List Char) := do
  let inner ← after? opening text
  let inner := inner.dropWhile Text.isBlank
  let name := inner.takeWhile isNameChar
  if name.isEmpty then none
  else
    let rest ← after? ['}', '}'] ((inner.dropWhile isNameChar).dropWhile Text.isBlank)
    some (name, rest)

def placeholderOpening : List Char := ['{', '{']

def sectionOpening : List Char := ['{', '{', '#']

def sectionClosing : List Char := ['{', '{', '/']

theorem length_after? {mark text rest : List Char} (h : after? mark text = some rest) :
    text.length = mark.length + rest.length := by
  induction mark generalizing text with
  | nil => simp_all [after?]
  | cons m mark ih =>
    cases text with
    | nil => simp [after?] at h
    | cons c text =>
      simp only [after?] at h
      split at h
      · simp only [List.length_cons, ih h]; omega
      · cases h

theorem length_dropWhile_le (p : Char → Bool) (text : List Char) :
    (text.dropWhile p).length ≤ text.length :=
  (List.dropWhile_sublist p).length_le

theorem length_tag? {opening text name rest : List Char}
    (h : tag? opening text = some (name, rest)) :
    rest.length + opening.length < text.length := by
  simp only [tag?, Option.bind_eq_bind, Option.bind_eq_some_iff] at h
  obtain ⟨inner, hinner, h⟩ := h
  split at h
  · cases h
  · simp only [Option.bind_eq_some_iff] at h
    obtain ⟨end_, hend, h⟩ := h
    cases h
    have start := length_after? hinner
    have close := length_after? hend
    have first := length_dropWhile_le Text.isBlank inner
    have second := length_dropWhile_le isNameChar (inner.dropWhile Text.isBlank)
    have third := length_dropWhile_le Text.isBlank
      ((inner.dropWhile Text.isBlank).dropWhile isNameChar)
    simp only [List.length_cons, List.length_nil] at close
    omega

/-! ## Sections -/

/-- The text up to the first closer of a name, and the text behind the closer. -/
def body? (name : List Char) : List Char → Option (List Char × List Char)
  | [] => none
  | c :: text =>
      match tag? sectionClosing (c :: text) with
      | some (closed, rest) =>
          if closed = name then some ([], rest)
          else (body? name text).map fun (body, rest) => (c :: body, rest)
      | none => (body? name text).map fun (body, rest) => (c :: body, rest)

structure Section where
  name : List Char
  body : List Char
  rest : List Char

/-- A section at the start of a text. -/
def section? (text : List Char) : Option Section := do
  let (name, inner) ← tag? sectionOpening text
  let (body, rest) ← body? name inner
  some { name, body, rest }

theorem length_body? {name text body rest : List Char}
    (h : body? name text = some (body, rest)) : body.length + rest.length ≤ text.length := by
  induction text generalizing body with
  | nil => simp [body?] at h
  | cons c text ih =>
    have step : ∀ {found : Option (List Char × List Char)},
        found = body? name text →
        found.map (fun p => (c :: p.1, p.2)) = some (body, rest) →
        body.length + rest.length ≤ (c :: text).length := by
      intro found hf hm
      simp only [Option.map_eq_some_iff, Prod.mk.injEq] at hm
      obtain ⟨⟨b, r⟩, hb, rfl, rfl⟩ := hm
      have inner : b.length + r.length ≤ text.length := ih (hf ▸ hb)
      simp only [List.length_cons]
      omega
    simp only [body?] at h
    split at h
    · rename_i closed after htag
      split at h
      · cases h
        have := length_tag? htag
        simp only [List.length_nil]
        omega
      · exact step rfl h
    · exact step rfl h

theorem length_section? {text : List Char} {s : Section} (h : section? text = some s) :
    s.body.length < text.length ∧ s.rest.length < text.length := by
  simp only [section?, Option.bind_eq_bind, Option.bind_eq_some_iff] at h
  obtain ⟨⟨name, inner⟩, htag, ⟨body, rest⟩, hbody, h⟩ := h
  cases h
  have opener := length_tag? htag
  have inside := length_body? hbody
  constructor <;> simp only at * <;> omega

/-- The text with each section replaced by its resolved body, or by nothing. -/
def resolveSections (counts : List Char → Bool) (text : List Char) : List Char :=
  match text with
  | [] => []
  | c :: rest =>
      match _h : section? (c :: rest) with
      | some s =>
          (if counts s.name then resolveSections counts s.body else []) ++
            resolveSections counts s.rest
      | none => c :: resolveSections counts rest
termination_by text.length
decreasing_by
  · exact (length_section? _h).1
  · exact (length_section? _h).2
  · simp

/-! ## Placeholders -/

inductive Segment where
  | literal (c : Char)
  | placeholder (name : List Char) (source : List Char)
deriving DecidableEq, Repr

namespace Segment

def source : Segment → List Char
  | .literal c => [c]
  | .placeholder _ source => source

def name? : Segment → Option (List Char)
  | .literal _ => none
  | .placeholder name _ => some name

/-- A placeholder gives way to the text chosen for its name, if there is one. -/
def replaced (choice : List Char → Option (List Char)) : Segment → List Char
  | .literal c => [c]
  | .placeholder name source => (choice name).getD source

end Segment

def segments (text : List Char) : List Segment :=
  match text with
  | [] => []
  | c :: rest =>
      match _h : tag? placeholderOpening (c :: rest) with
      | some (name, behind) =>
          .placeholder name ((c :: rest).take ((c :: rest).length - behind.length)) ::
            segments behind
      | none => .literal c :: segments rest
termination_by text.length
decreasing_by
  · have := length_tag? _h; omega
  · simp

/-- The text with every placeholder replaced for whose name a text is chosen. -/
def replace (choice : List Char → Option (List Char)) (text : List Char) : List Char :=
  (segments text).flatMap (·.replaced choice)

/-- The names of the placeholders, each once, in order of first appearance. -/
def placeholders (text : List Char) : List (List Char) :=
  ((segments text).filterMap (·.name?)).foldl
    (fun seen name => if seen.contains name then seen else seen ++ [name]) []

end Playbook.Template
