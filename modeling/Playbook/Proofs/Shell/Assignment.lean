import Playbook.Proofs.Shell.Quoting
import Playbook.Proofs.Shell.Variable

/-!
# Assignment of defaults

A shell runs `: ${NAME:="text"}` by giving the variable the text if it is
unset or empty. In the text the backslashes of escaped characters go away and
each reference gives way to what its variable holds at that time. Commands and
expansions of any other kind are not read here.
-/

namespace Playbook.Shell

open Template

/-- What the variables hold; one that is unset counts as empty. -/
abbrev Environment := List Char → List Char

namespace Environment

def unset : Environment := fun _ => []

/-- An assignment that gives way to what is there already. -/
def orElse (env : Environment) (name text : List Char) : Environment := fun other =>
  if other = name ∧ env name = [] then text else env other

variable {env : Environment} {name other text : List Char}

theorem orElse_self (h : env name = []) : env.orElse name text name = text := by
  simp [orElse, h]

theorem orElse_of_ne (h : other ≠ name) : env.orElse name text other = env other := by
  simp [orElse, h]

theorem orElse_of_filled (h : env other ≠ []) :
    env.orElse name text other = env other := by
  rw [orElse, if_neg]
  rintro ⟨rfl, hempty⟩
  exact h hempty

end Environment

/-! ## Reading -/

/-- What has just been read between double quotes. -/
inductive Place where
  | text
  | backslash
  | dollar
  /-- The first characters of a name in braces. -/
  | name (start : List Char)

def putBefore (text : List Char) (found : List Char × List Char) : List Char × List Char :=
  (text ++ found.1, found.2)

/-- What a text in double quotes stands for, and the text behind the closing quote. -/
def quoted? (env : Environment) : Place → List Char → Option (List Char × List Char)
  | _, [] => none
  | .text, c :: rest =>
      if c = '"' then some ([], rest)
      else if c = '\\' then quoted? env .backslash rest
      else if c = '$' then quoted? env .dollar rest
      else if c = '\x60' then none
      else (quoted? env .text rest).map (putBefore [c])
  | .backslash, c :: rest =>
      let kept := if c = '\n' then [] else if isGuardable c then [c] else ['\\', c]
      (quoted? env .text rest).map (putBefore kept)
  | .dollar, c :: rest => if c = '{' then quoted? env (.name []) rest else none
  | .name start, c :: rest =>
      if c = '}' then (quoted? env .text rest).map (putBefore (env start))
      else if isVariableChar c then quoted? env (.name (start ++ [c])) rest
      else none

/-- The variable of a default assignment, and the text it would get; a comment may follow. -/
def assignment? (env : Environment) (text : List Char) :
    Option (List Char × List Char) := do
  let rest ← after? [':', ' ', '$', '{'] text
  let name := rest.takeWhile isVariableChar
  if name.isEmpty then none
  else
    let word ← after? [':', '=', '"'] (rest.dropWhile isVariableChar)
    let (value, rest) ← quoted? env .text word
    let comment ← after? ['}'] rest
    if comment = [] ∨ [' ', ' ', '#'] <+: comment then some (name, value) else none

/-- The variables behind some assignments; nothing where another statement stands. -/
def assignAll (env : Environment) : List Node → Option Environment
  | [] => some env
  | .line text :: nodes => do
      let (name, value) ← assignment? env text.toList
      assignAll (env.orElse name value) nodes
  | .comment _ :: nodes | .blank :: nodes => assignAll env nodes
  | _ => none

variable {env : Environment}

theorem quoted?_escapeChar {c : Char} (hc : c ≠ '$') (rest : List Char) :
    quoted? env .text (escapeChar c ++ rest) =
      (quoted? env .text rest).map (putBefore [c]) := by
  unfold escapeChar
  cases hescaped : isEscaped c with
  | false =>
      obtain ⟨hslash, hquote, htick⟩ := isEscaped_eq_false_iff.1 hescaped
      simp [quoted?, hslash, hquote, htick, hc]
  | true =>
      have hline : c ≠ '\n' := by
        rintro rfl
        cases hescaped
      simp [quoted?, isGuardable, hescaped, hline]

theorem quoted?_name {more : List Char} (h : ∀ c ∈ more, isVariableChar c)
    (env : Environment) (start rest : List Char) :
    quoted? env (.name start) (more ++ '}' :: rest) =
      (quoted? env .text rest).map (putBefore (env (start ++ more))) := by
  induction more generalizing start with
  | nil => simp [quoted?]
  | cons c more ih =>
      have hc : c ≠ '}' := by
        rintro rfl
        cases h '}' List.mem_cons_self
      rw [List.cons_append, quoted?, if_neg hc, if_pos (h c List.mem_cons_self),
        ih fun d hd => h d (List.mem_cons_of_mem _ hd)]
      simp

theorem quoted?_reference (key rest : List Char) :
    quoted? env .text (reference (variableNameChars key) ++ rest) =
      (quoted? env .text rest).map (putBefore (env (variableNameChars key))) := by
  have hchars : ∀ c ∈ variableNameChars key, isVariableChar c := fun _ => isVariableChar_of_mem
  simpa [reference, quoted?] using quoted?_name hchars env [] rest

/-! ## Texts with references -/

/-- What a default stands for by what the variables hold. -/
def expanded (env : Environment) (text : List Char) : List Char :=
  replace (fun name => some (env (variableNameChars name))) text

/-- The names of the placeholders of a text, in order. -/
def namesIn (text : List Char) : List (List Char) := (segments text).filterMap (·.name?)

theorem expanded_congr {other : Environment} {text : List Char}
    (h : ∀ name ∈ namesIn text, env (variableNameChars name) = other (variableNameChars name)) :
    expanded env text = expanded other text := by
  apply List.flatMap_congr
  intro segment hsegment
  cases segment with
  | literal c => rfl
  | placeholder name source =>
      exact h name (List.mem_filterMap.2 ⟨_, hsegment, rfl⟩)

/-- An escaped text with references in place of its placeholders. -/
def written (text : List Char) : List Char :=
  replace (fun name => some (reference (variableNameChars name))) (escapeChars text)

theorem toList_substituteAll_escape (text : String) :
    (substituteAll (escape text)).toList = written text.toList := by
  simp [substituteAll, escape, written]

theorem written_eq_flatMap (text : List Char) :
    written text = (segments text).flatMap fun
      | .literal c => escapeChar c
      | .placeholder name _ => reference (variableNameChars name) := by
  rw [written, replace, segments_escapeChars, List.flatMap_assoc]
  apply List.flatMap_congr
  intro segment _
  cases segment with
  | placeholder name source => simp [Segment.remains, escapedSegment, Segment.replaced]
  | literal c =>
      cases hescaped : isEscaped c <;>
        simp [Segment.remains, escapedSegment, escapeChar, Segment.replaced, hescaped]

theorem quoted?_written {text : List Char} (h : '$' ∉ text) (rest : List Char) :
    quoted? env .text (written text ++ '"' :: rest) = some (expanded env text, rest) := by
  have hliteral : .literal '$' ∉ segments text := by
    intro hsegment
    apply h
    rw [← flatMap_source text]
    exact List.mem_flatMap.2 ⟨_, hsegment, List.mem_singleton_self _⟩
  rw [written_eq_flatMap, expanded, replace]
  generalize segments text = found at hliteral
  induction found with
  | nil => simp [quoted?]
  | cons segment found ih =>
      obtain ⟨hsegment, hfound⟩ := not_or.1 (mt List.mem_cons.2 hliteral)
      rw [List.flatMap_cons, List.flatMap_cons, List.append_assoc]
      cases segment with
      | literal c =>
          have hc : c ≠ '$' := by
            rintro rfl
            exact hsegment rfl
          rw [quoted?_escapeChar hc, ih hfound]
          rfl
      | placeholder name source =>
          rw [quoted?_reference, ih hfound]
          rfl

theorem assignment?_written {name text comment : List Char}
    (hname : ∀ c ∈ name, isVariableChar c) (hne : name ≠ []) (htext : '$' ∉ text)
    (hcomment : comment = [] ∨ [' ', ' ', '#'] <+: comment) (env : Environment) :
    assignment? env ([':', ' ', '$', '{'] ++ (name ++ ([':', '=', '"'] ++
      (written text ++ '"' :: (['}'] ++ comment))))) = some (name, expanded env text) := by
  have hend (rest : List Char) : ∀ c ∈ ([':', '=', '"'] ++ rest).head?, isVariableChar c = false := by
    rintro c hc
    cases hc
    rfl
  simp only [assignment?, after?_append, Option.bind_eq_bind, Option.bind_some,
    List.takeWhile_append_of_pos hname, List.dropWhile_append_of_pos hname,
    takeWhile_eq_nil (hend _), dropWhile_eq_self (hend _), List.append_nil,
    List.isEmpty_eq_false_iff.2 hne, quoted?_written htext, if_pos hcomment]
  rfl

end Playbook.Shell
