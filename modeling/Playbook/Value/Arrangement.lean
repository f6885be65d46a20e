import Playbook.Value

/-!
# Numbers in sets

A set lists its numbers in an order of their own: each stands in the place
that its remainder points to, or in the next one tried that is free. Members
of other kinds stay in the order in which they came.
-/

namespace Playbook.Value

/-- Sizes count up to this prime, `2 ^ 61 - 1`. -/
def sizePrime : Nat := 2305843009213693951

/-- Numbers that point to places have 64 bits. -/
def pointerBound : Nat := 18446744073709551616

/-- Minus one points where minus two does. -/
def signed (negative : Bool) (size : Nat) : Nat :=
  if negative ∧ size ≠ 0 then pointerBound - (if size = 1 then 2 else size) else size

/-- The size of `mantissa · 2 ^ exponent`; 61 doublings lead back to the same size. -/
def binarySize (mantissa : Nat) (exponent : Int) : Nat :=
  mantissa * (1 <<< (exponent % 61).toNat) % sizePrime

/-- What an infinity points with. -/
def infinitySize : Nat := 314159

/-- The number by which a number finds its place. -/
def pointer? : Value → Option Nat
  | .bool b => some (if b then 1 else 0)
  | .int n => some (signed (decide (n < 0)) (n.natAbs % sizePrime))
  | .float (.infinity negative) => some (signed negative infinitySize)
  | .float (.finite negative mantissa exponent) =>
      some (signed negative (binarySize mantissa exponent))
  | _ => none

/-- A set of less than five has eight places, a greater one more than two for each member. -/
def placeCount (members : Nat) : Nat :=
  if members < 5 then 8 else 2 * (1 <<< Nat.log2 (2 * members))

/-- How many places in a row are tried, if there are so many. -/
def tryLength : Nat := 10

/-- The first free place: some in a row, then those from another start on. -/
def freePlace (table : Array (Option Value)) (start pointer : Nat) : Nat → Nat
  | 0 => 0
  | tries + 1 =>
      let row := if start + tryLength ≤ table.size then tryLength else 1
      match ((List.range row).map (start + ·)).find? fun place =>
          table[place]?.any Option.isNone with
      | some place => place
      | none =>
          let pointer := pointer / 32
          freePlace table ((start * 5 + 1 + pointer) % table.size) pointer tries

def putMember (table : Array (Option Value)) (member : Value × Nat) : Array (Option Value) :=
  let place := freePlace table (member.2 % table.size) member.2 (table.size + 16)
  table.setIfInBounds place (some member.1)

/-- Different members in the order in which a set lists them. -/
def arranged (members : List Value) : List Value :=
  match members.mapM fun v => (pointer? v).map fun pointer => (v, pointer) with
  | none => members
  | some pointed =>
      let table := Array.replicate (placeCount members.length) none
      (pointed.foldl putMember table).toList.filterMap id

end Playbook.Value
