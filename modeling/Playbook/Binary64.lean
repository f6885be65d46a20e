/-!
# Binary floating-point numbers

`Binary64` holds the 64-bit numbers of manifests exactly: a finite number is
`± mantissa · 2 ^ exponent` with a mantissa below `2 ^ 53`, an exponent not
below `-1074`, and a mantissa of 53 bits unless the exponent is `-1074`.
Every operation is computed on exact fractions and rounded once, to the
nearest number, a tie going to the even mantissa.
-/

namespace Playbook

inductive Binary64 where
  /-- No number. Two of them are the same one if they have the same mark. -/
  | nan (mark : String)
  | infinity (negative : Bool)
  | finite (negative : Bool) (mantissa : Nat) (exponent : Int)
deriving DecidableEq, Repr, Inhabited

namespace Binary64

def leastExponent : Int := -1074

def greatestExponent : Int := 971

/-- Mantissas are below `2 ^ 53`. -/
def mantissaBound : Nat := 9007199254740992

/-- The least mantissa of 53 bits, `2 ^ 52`. -/
def leastFull : Nat := 4503599627370496

/-- The powers of ten. -/
def tenTo (exponent : Nat) : Nat := Nat.pow 10 exponent

def zero (negative : Bool) : Binary64 := .finite negative 0 leastExponent

/-- The quotient rounded to the nearest natural number, ties to even. -/
def roundQuotient (numerator denominator : Nat) : Nat :=
  let quotient := numerator / denominator
  let remainder := numerator % denominator
  if 2 * remainder < denominator then quotient
  else if denominator < 2 * remainder then quotient + 1
  else if quotient % 2 == 0 then quotient else quotient + 1

/-- `numerator / denominator` divided by `2 ^ exponent`, as a fraction. -/
def scaled (numerator denominator : Nat) (exponent : Int) : Nat × Nat :=
  if 0 ≤ exponent then (numerator, denominator <<< exponent.toNat)
  else (numerator <<< (-exponent).toNat, denominator)

/-- The number nearest to `± numerator / denominator`. -/
def ofRatio (negative : Bool) (numerator denominator : Nat) : Binary64 :=
  if numerator = 0 then zero negative
  else
    let guess : Int := (Nat.log2 numerator : Int) - (Nat.log2 denominator : Int) - 52
    let (top, bottom) := scaled numerator denominator guess
    let fitted := if top < bottom <<< 52 then guess - 1 else guess
    let exponent := max fitted leastExponent
    let (top, bottom) := scaled numerator denominator exponent
    let mantissa := roundQuotient top bottom
    let (mantissa, exponent) :=
      if mantissa = mantissaBound then (leastFull, exponent + 1) else (mantissa, exponent)
    if greatestExponent < exponent then .infinity negative
    else .finite negative mantissa exponent

/--
The number nearest to `± digits · 10 ^ exponent`. Exponents far outside the
range are answered without forming the power.
-/
def ofDecimal (negative : Bool) (digits : Nat) (exponent : Int) : Binary64 :=
  let bits : Int := Nat.log2 digits
  if digits = 0 then zero negative
  else if 400 < bits * 3 / 10 + exponent then .infinity negative
  else if (bits + 1) / 3 + 1 + exponent < -400 then zero negative
  else if 0 ≤ exponent then ofRatio negative (digits * tenTo exponent.toNat) 1
  else ofRatio negative digits (tenTo (-exponent).toNat)

def ofInt (n : Int) : Binary64 := ofRatio (decide (n < 0)) n.natAbs 1

/-- Numerator and denominator of a finite number, none of the others. -/
def ratio? : Binary64 → Option (Int × Nat)
  | .finite negative mantissa exponent =>
      let top : Nat := mantissa <<< exponent.toNat
      let bottom : Nat := 1 <<< (-exponent).toNat
      some (if negative then -(top : Int) else (top : Int), bottom)
  | _ => none

/-- The whole number that a number is equal to, if there is one. -/
def toInt? (x : Binary64) : Option Int :=
  match x.ratio? with
  | some (top, bottom) => if top % bottom = 0 then some (top / bottom) else none
  | none => none

/-- The whole number next to a finite number on the side of zero. -/
def truncate? (x : Binary64) : Option Int :=
  x.ratio?.map fun (top, bottom) => Int.tdiv top bottom

def isZero : Binary64 → Bool
  | .finite _ mantissa _ => mantissa == 0
  | _ => false

def isNan : Binary64 → Bool
  | .nan _ => true
  | _ => false

/-- Equality as a key: the zeros are equal, and a `nan` is equal to the same one only. -/
def same (x y : Binary64) : Bool := x == y || (x.isZero && y.isZero)

def sameInt (x : Binary64) (n : Int) : Bool := x.toInt? == some n

/-- Strict numerical order; `nan` is below nothing and above nothing. -/
def less : Binary64 → Binary64 → Bool
  | .nan _, _ => false
  | _, .nan _ => false
  | .infinity x, .infinity y => x && !y
  | .infinity x, .finite .. => x
  | .finite .., .infinity y => !y
  | x, y =>
      match x.ratio?, y.ratio? with
      | some (a, b), some (c, d) => decide (a * d < c * b)
      | _, _ => false

def lessInt (x : Binary64) (n : Int) : Bool :=
  match x with
  | .nan _ => false
  | .infinity negative => negative
  | x => match x.ratio? with
    | some (a, b) => decide (a < n * b)
    | none => false

def intLess (n : Int) (x : Binary64) : Bool :=
  match x with
  | .nan _ => false
  | .infinity negative => !negative
  | x => match x.ratio? with
    | some (a, b) => decide (n * b < a)
    | none => false

def isNegative : Binary64 → Bool
  | .nan _ => false
  | .infinity negative => negative
  | .finite negative .. => negative

def negate : Binary64 → Binary64
  | .nan mark => .nan mark
  | .infinity negative => .infinity (!negative)
  | .finite negative mantissa exponent => .finite (!negative) mantissa exponent

/-- The sum, rounded once; `mark` is for a sum that is no number. -/
def add (mark : String) (x y : Binary64) : Binary64 :=
  match x, y with
  | .infinity a, .infinity b => if a = b then .infinity a else .nan mark
  | .infinity a, .finite .. => .infinity a
  | .finite .., .infinity b => .infinity b
  | x, y =>
      match x.ratio?, y.ratio? with
      | some (a, b), some (c, d) =>
          let top := a * d + c * b
          if top = 0 then zero (x.isNegative && y.isNegative && x.isZero)
          else ofRatio (decide (top < 0)) top.natAbs (b * d)
      | _, _ => .nan mark

/-- The product, rounded once; `mark` is for a product that is no number. -/
def times (mark : String) (x y : Binary64) : Binary64 :=
  let negative := x.isNegative != y.isNegative
  if x.isNan || y.isNan then .nan mark
  else
    match x.ratio?, y.ratio? with
    | some (a, b), some (c, d) => ofRatio negative (a.natAbs * c.natAbs) (b * d)
    | _, _ => if x.isZero || y.isZero then .nan mark else .infinity negative

end Binary64

end Playbook
