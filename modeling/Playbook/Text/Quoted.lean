import Playbook.Text.Printable

/-!
# Quoted text

`quote` writes text between quotes on one line: single quotes, or double
quotes where the text holds a single quote and no double one. The backslash,
the quote in use and every character that is not printable are escaped.
-/

namespace Playbook.Text

def hexDigits (width : Nat) (n : Nat) : List Char :=
  let digits := Nat.toDigits 16 n
  List.replicate (width - digits.length) '0' ++ digits

def escapeChar (mark : Char) (c : Char) : List Char :=
  if c = mark ∨ c = '\\' then ['\\', c]
  else if c = '\n' then ['\\', 'n']
  else if c = '\r' then ['\\', 'r']
  else if c = '\t' then ['\\', 't']
  else if isPrintable c then [c]
  else if c.toNat < 0x100 then '\\' :: 'x' :: hexDigits 2 c.toNat
  else if c.toNat < 0x10000 then '\\' :: 'u' :: hexDigits 4 c.toNat
  else '\\' :: 'U' :: hexDigits 8 c.toNat

def quoteMark (text : List Char) : Char :=
  if text.contains '\'' && !text.contains '"' then '"' else '\''

def quote (text : String) : String :=
  let mark := quoteMark text.toList
  String.ofList (mark :: text.toList.flatMap (escapeChar mark) ++ [mark])

/-- Bytes are written like text of the first 256 characters, with a `b` in front. -/
def quoteBytes (data : List UInt8) : String :=
  let text := data.map fun byte => Char.ofNat byte.toNat
  let mark := quoteMark text
  let escape := fun c =>
    if 126 < c.toNat then '\\' :: 'x' :: hexDigits 2 c.toNat else escapeChar mark c
  String.ofList ('b' :: mark :: text.flatMap escape ++ [mark])

end Playbook.Text
