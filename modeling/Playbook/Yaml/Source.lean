import Playbook.Fault
import Playbook.Text.Encoding

/-!
# Sources of YAML texts

A text is read piece by piece, as far as it is looked at: first 8192
characters, then 4096 at a time. A piece with a character that no YAML text
may hold is refused as a whole. Bytes are taken from a file in portions of
their own, and a portion that is no text stops the piece that needs it. A
`Source` is the text that can be read and what stops the reading behind it.
-/

namespace Playbook.Yaml

/-- Why a text has no value: it is no document, or a scalar in it is not what it should be. -/
inductive Trouble where
  | malformed
  | fault (fault : Fault)

abbrev Result := Except Trouble

/-- Characters that a text may hold at all. -/
def isAllowed (c : Char) : Bool :=
  let code := c.toNat
  c == '\t' || c == '\n' || c == '\r' || (decide (0x20 ≤ code) && decide (code ≤ 0x7e)) ||
    code == 0x85 || (decide (0xa0 ≤ code) && decide (code ≤ 0xd7ff)) ||
    (decide (0xe000 ≤ code) && decide (code ≤ 0xfffd)) || decide (0x10000 ≤ code)

structure Source where
  text : List Char
  /-- Nothing stops the reading at the end of the whole. -/
  stop : Option Trouble

namespace Source

def pieceLength : Nat := 4096

/-- The start of the piece that is read with a number of pieces in front; the first two are one. -/
def pieceStart (pieces : Nat) : Nat := if pieces < 2 then 0 else pieces * pieceLength

def ofChars (chars : List Char) : Source :=
  let length := (chars.takeWhile isAllowed).length
  if length = chars.length then ⟨chars, none⟩
  else ⟨chars.take (pieceStart (length / pieceLength)), some .malformed⟩

def ofText (text : String) : Source := ofChars (Text.plainLineEnds text.toList)

/-! ## Portions of bytes -/

def leastPortion : Nat := 8192

/-- Progress of reading pieces out of bytes. -/
structure Portions where
  bytes : List UInt8
  /-- Characters that are decoded and not handed out. -/
  held : Nat
  /-- Characters that the present piece still lacks. -/
  lacking : Nat
  pieces : Nat
  /-- Bytes and characters of the last portion. -/
  portion : Nat × Nat
  unfinished : List UInt8
  /-- Whether a carriage return is kept back until the next portion shows what follows it. -/
  keepsReturn : Bool

/-- A portion has the bytes that the lacking characters will need, going by the last portion. -/
def portionLength (p : Portions) : Nat :=
  let (bytes, chars) := p.portion
  max leastPortion (if chars < bytes then p.lacking * bytes / chars else p.lacking)

/-- The pieces that can be read in front of the first portion that is no text. -/
def readablePieces (p : Portions) : Nat → Nat
  | 0 => p.pieces
  | steps + 1 =>
      if p.lacking ≤ p.held then
        readablePieces { p with
          held := p.held - p.lacking, lacking := pieceLength, pieces := p.pieces + 1 } steps
      else
        let p := { p with lacking := p.lacking - p.held, held := 0 }
        let portion := p.bytes.take (portionLength p)
        let found := Text.decode (p.unfinished ++ portion)
        if portion.isEmpty || !found.isValid then p.pieces
        else
          let chars := if p.keepsReturn then '\r' :: found.chars else found.chars
          let keepsReturn := chars.getLast? == some '\r'
          let count := (Text.plainLineEnds (if keepsReturn then chars.dropLast else chars)).length
          readablePieces { p with
            bytes := p.bytes.drop portion.length
            held := count
            portion := if count = 0 then (0, 0) else (portion.length, count)
            unfinished := found.unfinished
            keepsReturn } steps

/-- What can be read of bytes that are no text as a whole. -/
def ofBrokenBytes (data : List UInt8) : Source :=
  let pieces := readablePieces ⟨data, 0, pieceLength, 0, (0, 0), [], false⟩ (data.length + 1)
  let chars := (Text.plainLineEnds (Text.decode data).chars).take (pieceStart pieces)
  match (ofChars chars).stop with
  | some _ => ofChars chars
  | none => ⟨chars, some (.fault .undecodable)⟩

def ofBytes (data : List UInt8) : Source :=
  match Text.decoded? data with
  | some chars => ofChars (Text.plainLineEnds chars)
  | none => ofBrokenBytes data

end Source

end Playbook.Yaml
