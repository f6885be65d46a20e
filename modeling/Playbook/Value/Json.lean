import Playbook.Text.Basic
import Playbook.Text.Quoted
import Playbook.Value.Display

/-!
# Values as JSON

`json` writes a value with two blanks of indentation a level. Text is written
in the printable characters of seven bits; any other character becomes the
units of its sixteen-bit form. A value that has no form of its own is written
as its text.
-/

namespace Playbook.Value

def jsonUnit (n : Nat) : List Char := '\\' :: 'u' :: Text.hexDigits 4 n

def jsonUnits (n : Nat) : List Char :=
  if n < 0x10000 then jsonUnit n
  else
    jsonUnit (0xd800 + (n - 0x10000) / 0x400) ++ jsonUnit (0xdc00 + (n - 0x10000) % 0x400)

def jsonChar (c : Char) : List Char :=
  if c = '"' ∨ c = '\\' then ['\\', c]
  else if c = '\n' then ['\\', 'n']
  else if c = '\r' then ['\\', 'r']
  else if c = '\t' then ['\\', 't']
  else if c = '\x08' then ['\\', 'b']
  else if c = '\x0c' then ['\\', 'f']
  else if 0x20 ≤ c.toNat ∧ c.toNat < 0x7f then [c]
  else jsonUnits c.toNat

def jsonText (s : String) : String :=
  String.ofList ('"' :: s.toList.flatMap jsonChar ++ ['"'])

def jsonPlain : Value → String
  | .null => "null"
  | .bool b => if b then "true" else "false"
  | .int n => toString n
  | .text s => jsonText s
  | v => jsonText v.display

def jsonIndent (depth : Nat) : String :=
  String.ofList ('\n' :: List.replicate (2 * depth) ' ')

/-- Written members between brackets, each on a line of its own. -/
def jsonBlock (opener closer : String) (depth : Nat) (members : List String) : String :=
  if members.isEmpty then opener ++ closer
  else
    opener ++ jsonIndent (depth + 1) ++ Text.join ("," ++ jsonIndent (depth + 1)) members ++
      jsonIndent depth ++ closer

mutual

def json (depth : Nat) : Value → String
  | .list items => jsonBlock "[" "]" depth (jsonItems (depth + 1) items)
  | .mapping entries => jsonBlock "\x7b" "\x7d" depth (jsonEntries (depth + 1) entries)
  | v => jsonPlain v

def jsonItems (depth : Nat) : List Value → List String
  | [] => []
  | v :: vs => json depth v :: jsonItems depth vs

def jsonEntries (depth : Nat) : List (Value × Value) → List String
  | [] => []
  | (k, v) :: es => (jsonText k.display ++ ": " ++ json depth v) :: jsonEntries depth es

end

end Playbook.Value
