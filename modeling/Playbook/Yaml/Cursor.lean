import Playbook.Yaml.Source

/-!
# Places in a YAML text

A cursor is a place in a text with its line and column. The end of the text
is seen as the absence of a character.
-/

namespace Playbook.Yaml

def isBreak (c : Char) : Bool :=
  c == '\n' || c == '\r' || c == '\x85' || c == '\u2028' || c == '\u2029'

def isSpaceOrBreak (c : Char) : Bool := c == ' ' || c == '\t' || isBreak c

structure Cursor where
  rest : List Char
  /-- The length of the whole text. -/
  size : Nat
  index : Nat
  line : Nat
  column : Nat

namespace Cursor

def start (text : List Char) : Cursor := ⟨text, text.length, 0, 0, 0⟩

/-- How many steps at most are left to the end, and one more. -/
def bound (c : Cursor) : Nat := c.size - c.index + 1

def peek? (c : Cursor) (ahead : Nat) : Option Char := (c.rest.drop ahead).head?

/-- Whether the next characters are the given ones. -/
def sees (c : Cursor) (text : List Char) : Bool := text.isPrefixOf c.rest

/-- The end of the text counts as what is looked for. -/
def endsOr (c : Cursor) (ahead : Nat) (p : Char → Bool) : Bool :=
  match c.peek? ahead with
  | none => true
  | some x => p x

def isAt (c : Cursor) (p : Char → Bool) : Bool :=
  match c.peek? 0 with
  | none => false
  | some x => p x

/-- A carriage return in front of a line feed does not end the line by itself. -/
def step (c : Cursor) : Cursor :=
  match c.rest with
  | [] => c
  | x :: rest =>
      if isBreak x && !(x == '\r' && rest.head? == some '\n') then
        { c with rest, index := c.index + 1, line := c.line + 1, column := 0 }
      else if x == '\ufeff' then { c with rest, index := c.index + 1 }
      else { c with rest, index := c.index + 1, column := c.column + 1 }

def steps (c : Cursor) : Nat → Cursor
  | 0 => c
  | n + 1 => c.step.steps n

/-- The run of characters of a class, and the place behind it. -/
def span (c : Cursor) (p : Char → Bool) : List Char × Cursor :=
  let run := c.rest.takeWhile p
  (run, c.steps run.length)

def skip (c : Cursor) (p : Char → Bool) : Cursor := (c.span p).2

/-- A line break is read as a line feed, except for the two separators that are characters. -/
def lineBreak? (c : Cursor) : Option (Char × Cursor) :=
  match c.rest with
  | '\r' :: '\n' :: _ => some ('\n', c.steps 2)
  | x :: _ =>
      if x == '\n' || x == '\r' || x == '\x85' then some ('\n', c.step)
      else if x == '\u2028' || x == '\u2029' then some (x, c.step)
      else none
  | [] => none

/-- Three marks of a document border, with white space or the end behind them. -/
def seesBorder (c : Cursor) : Bool :=
  (c.sees ['-', '-', '-'] || c.sees ['.', '.', '.']) && c.endsOr 3 isSpaceOrBreak

end Cursor

end Playbook.Yaml
