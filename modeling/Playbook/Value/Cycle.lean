import Playbook.Value

/-!
# Values that hold themselves

`opened` shows what a value holds: the outermost `cycle` is taken away, and
the whole of it is put in for each `again` that names it.
-/

namespace Playbook.Value

mutual

/-- The value with `whole` put in for the mentions of a name. -/
def putIn (name : Nat) (whole : Value) : Value → Value
  | .again n => if n = name then whole else .again n
  | .cycle n content => .cycle n (if n = name then content else putIn name whole content)
  | .list items => .list (putInItems name whole items)
  | .tuple items => .tuple (putInItems name whole items)
  | .mapping entries => .mapping (putInEntries name whole entries)
  | v => v

def putInItems (name : Nat) (whole : Value) : List Value → List Value
  | [] => []
  | x :: xs => putIn name whole x :: putInItems name whole xs

/-- A key never holds the collection that it is a key of. -/
def putInEntries (name : Nat) (whole : Value) : List (Value × Value) → List (Value × Value)
  | [] => []
  | (k, v) :: es => (k, putIn name whole v) :: putInEntries name whole es

end

def opened : Value → Value
  | .cycle name content => putIn name (.cycle name content) content
  | v => v

mutual

/-- How many collections are written inside each other at most. -/
def height : Value → Nat
  | .list items | .tuple items | .set items => heightOfItems items + 1
  | .mapping entries => heightOfEntries entries + 1
  | .cycle _ content => height content
  | _ => 0

def heightOfItems : List Value → Nat
  | [] => 0
  | x :: xs => max (height x) (heightOfItems xs)

def heightOfEntries : List (Value × Value) → Nat
  | [] => 0
  | (_, v) :: es => max (height v) (heightOfEntries es)

end

end Playbook.Value
