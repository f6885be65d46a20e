import Playbook.Fault
import Playbook.Value.Cycle

/-!
# Reading values

How the fields of a manifest are read. A field that the reader converts
becomes text by `shown`; a field that is absent is `null`.
-/

namespace Playbook.Value

/-- The text of a value, unless a number in it is too long for one. -/
def shown (v : Value) : Attempt String :=
  if v.isShowable then .ok v.display else .error (.tooManyDigits none)

/-- The same with text in quotes. -/
def shownQuoted (v : Value) : Attempt String :=
  if v.isShowable then .ok v.quoted else .error (.tooManyDigits none)

def entries (v : Value) : Attempt Entries :=
  match v.opened with
  | .mapping es => .ok es
  | _ => .error .lacksOperation

def fieldOr (v : Value) (name : String) (default : Value) : Attempt Value := do
  let es ← v.entries
  return (Entries.get? es name).getD default

def field (v : Value) (name : String) : Attempt Value := v.fieldOr name .null

/-- A field that has to be there. -/
def required (v : Value) (name : String) : Attempt Value :=
  match v.opened with
  | .mapping es =>
      match Entries.get? es name with
      | some x => .ok x
      | none => .error (.missingKey name)
  | _ => .error .wrongType

/-- The members of a collection: items, keys, characters or byte values. -/
def members (v : Value) : Attempt (List Value) :=
  match v.opened with
  | .list xs | .tuple xs | .set xs => .ok xs
  | .mapping es => .ok (es.map (·.1))
  | .text s => .ok (s.toList.map fun c => .text (String.singleton c))
  | .bytes data => .ok (data.map fun byte => .int byte.toNat)
  | _ => .error .wrongType

/-- A text stands for a list that holds it alone; a value that is not given for no text. -/
def texts (v : Value) : Attempt (List String) :=
  if !v.isGiven then .ok []
  else match v with
    | .text s => .ok [s]
    | _ => do (← v.members).mapM shown

def textPair (entry : Value × Value) : Attempt (String × String) := do
  let key ← entry.1.shown
  return (key, ← if entry.2.isNull then pure "" else entry.2.shown)

/-- The entries of a mapping as texts, with empty text for `null`. -/
def textPairs (v : Value) : Attempt (List (String × String)) :=
  if !v.isGiven then .ok [] else do (← v.entries).mapM textPair

/-- Neither `null` nor empty text. -/
def optionalText : Value → Attempt (Option String)
  | .null => .ok none
  | .text s => .ok (if s.isEmpty then none else some s)
  | v => v.shown.map some

def textOrEmpty (v : Value) : Attempt String := (v.orElse (.text "")).shown

def asText : Value → Attempt String
  | .text s => .ok s
  | _ => .error .lacksOperation

/-- Text that can be edited. Bytes and dates know editing, but not with text. -/
def editable : Value → Attempt String
  | .text s => .ok s
  | .bytes _ | .day _ | .instant _ => .error .wrongType
  | _ => .error .lacksOperation

def isBlankByte (byte : UInt8) : Bool := byte == 32 || (9 ≤ byte && byte ≤ 13)

def trimBytes (data : List UInt8) : List UInt8 :=
  ((data.dropWhile isBlankByte).reverse.dropWhile isBlankByte).reverse

/-- Text or bytes without the blanks around them. -/
def trimmed : Value → Attempt Value
  | .text s => .ok (.text (Text.trim s))
  | .bytes data => .ok (.bytes (trimBytes data))
  | _ => .error .lacksOperation

/-- Bytes of more than seven bits are no part of a number. -/
def byteChar (byte : UInt8) : Char := if byte < 128 then Char.ofNat byte.toNat else '?'

/-- A whole number that is written in characters, which the message shows as `quoted`. -/
def wholeIn (base : Nat) (quoted : String) (text : List Char) : Attempt Int :=
  match Text.readWhole base text with
  | .ok n => .ok n
  | .error .malformed => .error (.notAnInteger quoted base)
  | .error (.tooLong digits) => .error (.tooManyDigits (some digits))

def whole : Value → Attempt Int
  | .int n => .ok n
  | .bool b => .ok (if b then 1 else 0)
  | .float x =>
      match x, x.truncate? with
      | .nan _, _ => .error (.outOfRange "cannot convert float NaN to integer")
      | _, some n => .ok n
      | _, none => .error (.overflow .infinity)
  | .text s => wholeIn 10 (Text.quote s) s.toList
  | .bytes data => wholeIn 10 (Text.quoteBytes data) (data.map byteChar)
  | _ => .error .wrongType

/-- One key and value out of a collection of two members. -/
def pair (index : Nat) (v : Value) : Attempt (Value × Value) := do
  match ← v.members with
  | [k, x] => if k.canBeKey then return (k, x) else throw .wrongType
  | xs => throw (.notAPair index xs.length)

def pairsFrom (index : Nat) : List Value → Attempt (List (Value × Value))
  | [] => .ok []
  | x :: xs => do
      let p ← pair index x
      return p :: (← pairsFrom (index + 1) xs)

/-- A mapping, or a collection of pairs taken as one. -/
def asMapping (v : Value) : Attempt Entries :=
  match v.opened with
  | .mapping es => .ok es
  | _ => do return Entries.ofList (← pairsFrom 0 (← v.members))

end Playbook.Value
