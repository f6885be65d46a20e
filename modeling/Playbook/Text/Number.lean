import Playbook.Binary64
import Playbook.Text.Basic

/-!
# Numbers in text

`readWhole` and `decimal?` read a number written in text. Space around the
number is allowed, single underscores may stand between digits, and digits
may be of any script. A whole number to the base ten has at most
`digitLimit` digits.
-/

namespace Playbook.Text

def digitIn? (base : Nat) (c : Char) : Option Nat :=
  let value := match digit? c with
    | some n => some n
    | none =>
        if 'a' ≤ c ∧ c ≤ 'z' then some (c.toNat - 'a'.toNat + 10)
        else if 'A' ≤ c ∧ c ≤ 'Z' then some (c.toNat - 'A'.toNat + 10)
        else none
  value.filter (· < base)

/-- Digits with single underscores between them, from the left into `value`. -/
def digitsFrom? (base value : Nat) : List Char → Option Nat
  | [] => some value
  | '_' :: c :: rest => (digitIn? base c).bind fun n => digitsFrom? base (value * base + n) rest
  | c :: rest => (digitIn? base c).bind fun n => digitsFrom? base (value * base + n) rest

def digits? (base : Nat) : List Char → Option Nat
  | [] => none
  | c :: rest => (digitIn? base c).bind fun n => digitsFrom? base n rest

/-- The letter that may follow a leading zero to announce a base. -/
def baseMark (base : Nat) : List Char :=
  if base = 2 then ['b', 'B'] else if base = 8 then ['o', 'O']
  else if base = 16 then ['x', 'X'] else []

def unsigned? (base : Nat) : List Char → Option Nat
  | '0' :: mark :: rest =>
      if (baseMark base).contains mark then
        match rest with
        | '_' :: digits => digits? base digits
        | digits => digits? base digits
      else digits? base ('0' :: mark :: rest)
  | digits => digits? base digits

/-- Blank characters other than the information separators. -/
def isSpace (c : Char) : Bool := isBlank c && !(decide (0x1c ≤ c.toNat) && decide (c.toNat < 0x20))

def trimmed (text : List Char) : List Char :=
  ((text.dropWhile isSpace).reverse.dropWhile isSpace).reverse

/-- How a text fails to be a whole number. -/
inductive WholeTrouble where
  | malformed
  | tooLong (digits : Nat)
deriving DecidableEq, Repr

def digitLimit : Nat := 4300

/-- The digits that a text starts with, if there are too many of them for the base. -/
def excessDigits? (base : Nat) (text : List Char) : Option Nat :=
  let run := text.takeWhile fun c => c == '_' || (digitIn? base c).isSome
  let count := (run.filter (· != '_')).length
  if base = 10 ∧ digitLimit < count ∧ (digits? base run).isSome then some count else none

def readUnsigned (base : Nat) (text : List Char) : Except WholeTrouble Nat :=
  match excessDigits? base text with
  | some count => .error (.tooLong count)
  | none =>
      match unsigned? base text with
      | some n => .ok n
      | none => .error .malformed

def readWhole (base : Nat) (text : List Char) : Except WholeTrouble Int :=
  match trimmed text with
  | '-' :: rest => (readUnsigned base rest).map fun n => -(n : Int)
  | '+' :: rest => (readUnsigned base rest).map fun n => (n : Int)
  | rest => (readUnsigned base rest).map fun n => (n : Int)

/-- The digits of a part that may be empty. -/
def optionalDigits? (text : List Char) : Option Nat :=
  if text.isEmpty then some 0 else digits? 10 text

def exponent? : List Char → Option Int
  | '-' :: rest => (digits? 10 rest).map fun n => -(n : Int)
  | '+' :: rest => (digits? 10 rest).map fun n => (n : Int)
  | rest => (digits? 10 rest).map fun n => (n : Int)

def isMantissaChar (c : Char) : Bool := c != 'e' && c != 'E'

/-- An unsigned decimal: whole part, point and fraction, exponent. -/
def unsignedDecimal? (negative : Bool) (text : List Char) : Option Binary64 :=
  let mantissa := text.takeWhile isMantissaChar
  let scale := text.dropWhile isMantissaChar
  let whole := mantissa.takeWhile (· != '.')
  let fraction := (mantissa.dropWhile (· != '.')).drop 1
  let places := (fraction.filter (· != '_')).length
  if whole.isEmpty && fraction.isEmpty then none
  else do
    let whole ← optionalDigits? whole
    let fraction ← optionalDigits? fraction
    let power ← if scale.isEmpty then some 0 else exponent? (scale.drop 1)
    some (Binary64.ofDecimal negative (whole * Binary64.tenTo places + fraction) (power - places))

def namedNumber? (mark : String) (negative : Bool) (word : String) : Option Binary64 :=
  if word = "inf" ∨ word = "infinity" then some (.infinity negative)
  else if word = "nan" then some (.nan mark)
  else none

def unsignedNumber? (mark : String) (negative : Bool) (text : List Char) : Option Binary64 :=
  (namedNumber? mark negative (String.ofList (text.map Char.toLower))).or
    (unsignedDecimal? negative text)

/-- A decimal, or the name of a number; `mark` is for one that is no number. -/
def decimal? (mark : String) (text : List Char) : Option Binary64 :=
  match trimmed text with
  | '-' :: rest => unsignedNumber? mark true rest
  | '+' :: rest => unsignedNumber? mark false rest
  | rest => unsignedNumber? mark false rest

end Playbook.Text
