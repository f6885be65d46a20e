import Playbook.Binary64

/-!
# Shortest decimal text

`Binary64.text` writes the fewest digits that read back as the same number;
of several such texts it takes the one nearest to the number. The digits
stand in positional notation while the first of them is worth at least
`10 ^ -4` and less than `10 ^ 16`, and before an exponent otherwise.
-/

namespace Playbook.Binary64

/-- A positive decimal `digits · 10 ^ exponent`. -/
structure Decimal where
  digits : Nat
  exponent : Int
deriving DecidableEq, Repr

/--
Positive fractions over one denominator: a number and the two ends of the
interval of reals that round to it.
-/
structure Interval where
  value : Nat
  low : Nat
  high : Nat
  denominator : Nat
  closed : Bool

/-- Quarter units keep the shorter step below a power of two exact. -/
def interval (mantissa : Nat) (exponent : Int) : Interval :=
  let below := if mantissa = leastFull ∧ leastExponent < exponent then 1 else 2
  let unit := exponent - 2
  let up : Nat → Nat := fun n => n <<< unit.toNat
  { value := up (4 * mantissa)
    low := up (4 * mantissa - below)
    high := up (4 * mantissa + 2)
    denominator := 1 <<< (-unit).toNat
    closed := mantissa % 2 == 0 }

namespace Interval

def holds (i : Interval) (numerator denominator : Nat) : Bool :=
  let x := numerator * i.denominator
  let low := i.low * denominator
  let high := i.high * denominator
  if i.closed then decide (low ≤ x ∧ x ≤ high) else decide (low < x ∧ x < high)

/-- The place of the first digit: the value is at least `10 ^ (place - 1)` and below `10 ^ place`. -/
def place (i : Interval) : Int :=
  let rec up (power : Nat) (n : Nat) : Nat → Nat
    | 0 => n
    | fuel + 1 => if i.value < power then n else up (power * 10) (n + 1) fuel
  let rec down (value : Nat) (n : Nat) : Nat → Nat
    | 0 => n
    | fuel + 1 => if i.denominator ≤ value then n else down (value * 10) (n + 1) fuel
  if i.denominator ≤ i.value then (up i.denominator 0 400 : Int)
  else 1 - (down i.value 0 400 : Int)

/-- The point of the grid of `10 ^ exponent` in the interval that is nearest to the value. -/
def nearest? (i : Interval) (exponent : Int) : Option Decimal :=
  let up := tenTo exponent.toNat
  let down := tenTo (-exponent).toNat
  let digits := i.value * down / (i.denominator * up)
  let rest := i.value * down - digits * (i.denominator * up)
  let below := i.holds (digits * up) down
  let above := i.holds ((digits + 1) * up) down
  let nearBelow := decide (2 * rest < i.denominator * up) ||
    (decide (2 * rest = i.denominator * up) && digits % 2 == 0)
  if below && (nearBelow || !above) then some ⟨digits, exponent⟩
  else if above then some ⟨digits + 1, exponent⟩
  else none

/-- The first hit on the grids of `count`, `count + 1`, … digits. -/
def search (i : Interval) (place : Int) (count : Nat) : Nat → Decimal
  | 0 => ⟨i.value / i.denominator, 0⟩
  | fuel + 1 =>
      match i.nearest? (place - count) with
      | some decimal => decimal
      | none => search i place (count + 1) fuel

end Interval

def shortest (mantissa : Nat) (exponent : Int) : Decimal :=
  let i := interval mantissa exponent
  i.search i.place 1 20

/-- Digits of a decimal without the zeros at their end, and the place of the first. -/
def Decimal.significant (d : Decimal) : List Char × Int :=
  let digits := Nat.toDigits 10 d.digits
  let place := d.exponent + digits.length
  let kept := (digits.reverse.dropWhile (· == '0')).reverse
  (kept, place)

def positional (digits : List Char) (place : Int) : List Char :=
  if place ≤ 0 then '0' :: '.' :: (List.replicate (-place).toNat '0' ++ digits)
  else if digits.length ≤ place.toNat then
    digits ++ List.replicate (place.toNat - digits.length) '0' ++ ['.', '0']
  else digits.take place.toNat ++ '.' :: digits.drop place.toNat

/-- One digit before the point; the exponent has a sign and at least two digits. -/
def scientific (digits : List Char) (place : Int) : List Char :=
  let exponent := place - 1
  let power := Nat.toDigits 10 exponent.natAbs
  let head := match digits with
    | [] => ['0']
    | [d] => [d]
    | d :: rest => d :: '.' :: rest
  head ++ 'e' :: (if exponent < 0 then '-' else '+') ::
    (List.replicate (2 - power.length) '0' ++ power)

def text : Binary64 → String
  | .nan _ => "nan"
  | .infinity negative => if negative then "-inf" else "inf"
  | .finite negative mantissa exponent =>
      let unsigned :=
        if mantissa = 0 then ['0', '.', '0']
        else
          let (digits, place) := (shortest mantissa exponent).significant
          if -4 < place ∧ place ≤ 16 then positional digits place
          else scientific digits place
      String.ofList (if negative then '-' :: unsigned else unsigned)

end Playbook.Binary64
