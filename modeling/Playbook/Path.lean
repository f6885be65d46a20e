import Playbook.Text.Basic

/-!
# Paths

A path is a place to start from and a sequence of names. Empty names and the
name `.` are dropped when a path is read; `..` is kept, and only `resolved`
takes it away.
-/

namespace Playbook

namespace Path

/-- Where a path starts. Just two slashes in front are a root of their own. -/
inductive Start where
  | here
  | root
  | doubleRoot
deriving DecidableEq, Repr, Inhabited

def Start.text : Start → String
  | .here => ""
  | .root => "/"
  | .doubleRoot => "//"

def Start.ofSlashes : Nat → Start
  | 0 => .here
  | 2 => .doubleRoot
  | _ => .root

end Path

structure Path where
  start : Path.Start
  names : List String
deriving DecidableEq, Repr, Inhabited

namespace Path

def ofText (text : String) : Path :=
  { start := .ofSlashes (text.toList.takeWhile (· == '/')).length
    names := (Text.split '/' text).filter fun name => name != "" && name != "." }

def text (p : Path) : String :=
  if p.start = .here ∧ p.names = [] then "." else p.start.text ++ Text.join "/" p.names

/-- A path on the right with a root takes the place of the left one. -/
def append (p q : Path) : Path :=
  if q.start = .here then { p with names := p.names ++ q.names } else q

def child (p : Path) (name : String) : Path := p.append (ofText name)

def name (p : Path) : String := p.names.getLast?.getD ""

def parent (p : Path) : Path := { p with names := p.names.dropLast }

/-- The name in front of its last point and the rest, if there is something on both sides. -/
def splitName (name : String) : String × String :=
  let reversed := name.toList.reverse
  let ending := reversed.takeWhile (· != '.')
  let before := (reversed.dropWhile (· != '.')).drop 1
  if ending.isEmpty || before.isEmpty || !name.toList.contains '.' then (name, "")
  else (String.ofList before.reverse, String.ofList ('.' :: ending.reverse))

def suffix (p : Path) : String := (splitName p.name).2

def stem (p : Path) : String := (splitName p.name).1

def withoutSuffix (p : Path) : Path := { p with names := p.names.dropLast ++ [p.stem] }

/-- The names below a directory that the path starts with. -/
def below? (p directory : Path) : Option (List String) :=
  if p.start = directory.start ∧ directory.names.isPrefixOf p.names then
    some (p.names.drop directory.names.length)
  else none

/-- `..` taken together with the name in front of it; `passed` holds the last name first. -/
def resolveFrom (passed : List String) : List String → List String
  | [] => passed.reverse
  | name :: rest =>
      if name = ".." then resolveFrom (passed.drop 1) rest else resolveFrom (name :: passed) rest

/-- The path from the root without `..`; one that starts here counts from `current`. -/
def resolved (p current : Path) : Path :=
  { start := .root, names := resolveFrom [] (current.append p).names }

/-- Whether the character that ends a path for the file system stands in one of the names. -/
def holdsZero (p : Path) : Bool := p.names.any fun name => name.toList.contains '\x00'

/-- The path itself and the directories above it, the nearest first. -/
def upward (p : Path) : List Path :=
  (List.range (p.names.length + 1)).reverse.map fun count =>
    { p with names := p.names.take count }

def listLess : List String → List String → Bool
  | [], [] => false
  | [], _ :: _ => true
  | _ :: _, [] => false
  | x :: xs, y :: ys => if x = y then listLess xs ys else decide (x < y)

/-- Paths in order of their names, name by name. -/
def sort (paths : List Path) : List Path :=
  paths.mergeSort fun p q => !listLess q.names p.names

end Path

end Playbook
