/-!
# Text in bytes

Text is kept in the eight-bit form of Unicode. `firstChar` reads the bytes of
one character and tells bytes that have no meaning from bytes that end too
early. `plainLineEnds` reads the line ends of other systems as line feeds.
-/

namespace Playbook.Text

/-- Line ends of other systems are read as line feeds. -/
def plainLineEnds : List Char → List Char
  | [] => []
  | '\r' :: '\n' :: rest => '\n' :: plainLineEnds rest
  | '\r' :: rest => '\n' :: plainLineEnds rest
  | c :: rest => c :: plainLineEnds rest

/-- What the bytes at the start of a list are. -/
inductive FirstChar where
  | nothing
  | char (c : Char) (rest : List UInt8)
  /-- The bytes may be the start of a character. -/
  | unfinished
  | invalid
deriving Repr

def isWithin (least greatest : Nat) (byte : UInt8) : Bool :=
  decide (least ≤ byte.toNat) && decide (byte.toNat ≤ greatest)

/-- The bytes behind the second one of a character, each of which adds six bits. -/
def laterBytes (code : Nat) (rest : List UInt8) : Nat → FirstChar
  | 0 => .char (Char.ofNat code) rest
  | count + 1 =>
      match rest with
      | [] => .unfinished
      | byte :: rest =>
          if isWithin 0x80 0xbf byte then
            laterBytes (code * 64 + (byte.toNat - 0x80)) rest count
          else .invalid

/-- The bytes behind the first one; the second has bounds of its own. -/
def otherBytes (code least greatest count : Nat) : List UInt8 → FirstChar
  | [] => .unfinished
  | byte :: rest =>
      if isWithin least greatest byte then
        laterBytes (code * 64 + (byte.toNat - 0x80)) rest count
      else .invalid

def firstChar : List UInt8 → FirstChar
  | [] => .nothing
  | byte :: rest =>
      let code := byte.toNat
      if code < 0x80 then .char (Char.ofNat code) rest
      else if code < 0xc2 then .invalid
      else if code < 0xe0 then otherBytes (code - 0xc0) 0x80 0xbf 0 rest
      else if code = 0xe0 then otherBytes 0 0xa0 0xbf 1 rest
      else if code = 0xed then otherBytes 0xd 0x80 0x9f 1 rest
      else if code < 0xf0 then otherBytes (code - 0xe0) 0x80 0xbf 1 rest
      else if code = 0xf0 then otherBytes 0 0x90 0xbf 2 rest
      else if code < 0xf4 then otherBytes (code - 0xf0) 0x80 0xbf 2 rest
      else if code = 0xf4 then otherBytes 4 0x80 0x8f 2 rest
      else .invalid

/-- Bytes read as far as they are characters. -/
structure Decoding where
  chars : List Char
  /-- The bytes of a character that is not finished. -/
  unfinished : List UInt8
  isValid : Bool

/-- `steps` is at least the number of bytes. -/
def decodeFrom (bytes : List UInt8) : Nat → Decoding
  | 0 => ⟨[], bytes, true⟩
  | steps + 1 =>
      match firstChar bytes with
      | .nothing => ⟨[], [], true⟩
      | .unfinished => ⟨[], bytes, true⟩
      | .invalid => ⟨[], [], false⟩
      | .char c rest =>
          let found := decodeFrom rest steps
          { found with chars := c :: found.chars }

def decode (bytes : List UInt8) : Decoding := decodeFrom bytes bytes.length

/-- The text that bytes are, if they are whole characters. -/
def decoded? (bytes : List UInt8) : Option (List Char) :=
  let found := decode bytes
  if found.isValid && found.unfinished.isEmpty then some found.chars else none

end Playbook.Text
