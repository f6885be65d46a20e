import Playbook.Value

/-!
# Values in order

`sorted?` lists values of one kind in increasing order. A `nan` is neither
below nor above anything, so values with one among them have no such order;
they are arranged by halving: each value goes behind those in front of it
that it does not precede, as far as a search by halves finds them.
-/

namespace Playbook.Value

/-- The order in which equal-kind plain values are listed; `none` across kinds. -/
def less? : Value → Value → Option Bool
  | .text s, .text t => some (decide (s < t))
  | .bytes a, .bytes b => some (decide (a.map (·.toNat) < b.map (·.toNat)))
  | .day a, .day b => some (decide (a.number < b.number))
  | .instant a, .instant b =>
      if a.offset.isSome == b.offset.isSome then some (decide (a.number < b.number)) else none
  | .float x, .float y => some (x.less y)
  | .float x, .int n => some (x.lessInt n)
  | .float x, .bool b => some (x.lessInt (if b then 1 else 0))
  | .int n, .float x => some (Binary64.intLess n x)
  | .bool b, .float x => some (Binary64.intLess (if b then 1 else 0) x)
  | .int m, .int n => some (decide (m < n))
  | .int m, .bool b => some (decide (m < if b then 1 else 0))
  | .bool b, .int n => some (decide ((if b then 1 else 0) < n))
  | .bool a, .bool b => some (!a && b)
  | _, _ => none

def precedes (a b : Value) : Bool := less? a b == some true

def isNan : Value → Bool
  | .float x => x.isNan
  | _ => false

/-! ## Arranging by halving -/

/-- The values from the start of a list that each stand in a relation to the one in front. -/
def runAfter (follows : Value → Value → Bool) (last : Value) : List Value → List Value × List Value
  | [] => ([], [])
  | v :: rest =>
      if follows v last then
        let (run, others) := runAfter follows v rest
        (v :: run, others)
      else ([], v :: rest)

/-- The values at the start that rise, or that fall and are turned round, and the others. -/
def firstRun : List Value → List Value × List Value
  | first :: second :: rest =>
      if precedes second first then
        let (run, others) := runAfter precedes second rest
        ((first :: second :: run).reverse, others)
      else
        let (run, others) := runAfter (fun v last => !precedes v last) second rest
        (first :: second :: run, others)
  | values => (values, [])

/-- The place between `low` and `high` that halving finds for a value; `steps` bounds the search. -/
def placeFor (arranged : List Value) (v : Value) : Nat → Nat → Nat → Nat
  | 0, low, _ => low
  | steps + 1, low, high =>
      if high ≤ low then low
      else
        let middle := low + (high - low) / 2
        if precedes v (arranged[middle]?.getD .null) then placeFor arranged v steps low middle
        else placeFor arranged v steps (middle + 1) high

def insertByHalving (arranged : List Value) (v : Value) : List Value :=
  let place := placeFor arranged v arranged.length 0 arranged.length
  arranged.take place ++ v :: arranged.drop place

def arrangedByHalving (values : List Value) : List Value :=
  let (run, others) := firstRun values
  others.foldl insertByHalving run

/-- Values in increasing order; `none` if some of them cannot be compared. -/
def sorted? (values : List Value) : Option (List Value) :=
  if values.length < 2 then some values
  else if !values.all fun a => values.all fun b => (less? a b).isSome then none
  else if values.any isNan then some (arrangedByHalving values)
  else some (values.mergeSort fun a b => !precedes b a)

end Playbook.Value
