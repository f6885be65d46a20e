/-!
# Classes of code points

A class is held as its turns: the code points at which it begins or ends, in
increasing order. A code point belongs to it by the parity of the turns that
it has passed.
-/

namespace Playbook.Text

/-- The number of turns at or below `code`, by halving `[low, high)`. -/
def turnsAtOrBelow (turns : Array Nat) (code : Nat) (low high : Nat) : Nat → Nat
  | 0 => low
  | fuel + 1 =>
      if low < high then
        let middle := (low + high) / 2
        if turns.getD middle 0 ≤ code then turnsAtOrBelow turns code (middle + 1) high fuel
        else turnsAtOrBelow turns code low middle fuel
      else low

/-- Whether a code point has passed an odd number of turns; there are fewer than `2 ^ 16`. -/
def insideTurns (turns : Array Nat) (code : Nat) : Bool :=
  turnsAtOrBelow turns code 0 turns.size 16 % 2 == 1

end Playbook.Text
