import Playbook.Binary64
import Playbook.Calendar

/-!
# Values of manifests

A manifest document is a `Value`. Mappings keep the order in which their keys
came and hold no key twice. Equality is by meaning: numbers are compared by
size whatever their kind, with `true` as one and `false` as zero, and mappings
and sets without regard to order.

A collection may hold itself. It is then a `cycle` with a name, and `again`
with that name stands inside of it for the whole of it.
-/

namespace Playbook

inductive Value where
  | null
  | bool (b : Bool)
  | int (n : Int)
  | float (x : Binary64)
  | text (s : String)
  | bytes (data : List UInt8)
  | day (d : Day)
  | instant (t : Instant)
  | list (items : List Value)
  /-- Items that belong together, such as a key and a value. -/
  | tuple (items : List Value)
  | set (members : List Value)
  | mapping (entries : List (Value × Value))
  | cycle (name : Nat) (content : Value)
  | again (name : Nat)
deriving Inhabited

abbrev Entries := List (Value × Value)

namespace Value

/-- Equality of numbers, `none` where one of the values is no number. -/
def sameNumber? : Value → Value → Option Bool
  | .bool a, .bool b => some (a == b)
  | .bool a, .int n => some (n == if a then 1 else 0)
  | .int n, .bool a => some (n == if a then 1 else 0)
  | .int m, .int n => some (m == n)
  | .float x, .bool a => some (x.sameInt (if a then 1 else 0))
  | .bool a, .float x => some (x.sameInt (if a then 1 else 0))
  | .float x, .int n => some (x.sameInt n)
  | .int n, .float x => some (x.sameInt n)
  | .float x, .float y => some (x.same y)
  | _, _ => none

/-- Equality of values that hold no others. -/
def samePlain : Value → Value → Bool
  | .null, .null => true
  | .text s, .text t => s == t
  | .bytes a, .bytes b => a == b
  | .day a, .day b => a == b
  | .instant a, .instant b => a.same b
  | a, b => (sameNumber? a b).getD false

mutual

def same : Value → Value → Bool
  | .list xs, .list ys => sameItems xs ys
  | .tuple xs, .tuple ys => sameItems xs ys
  | .set xs, .set ys => xs.length == ys.length && membersIn xs ys
  | .mapping es, .mapping fs => es.length == fs.length && entriesIn es fs
  | .cycle m c, .cycle n d => m == n && same c d
  | .again m, .again n => m == n
  | a, b => samePlain a b

def sameItems : List Value → List Value → Bool
  | [], [] => true
  | x :: xs, y :: ys => same x y && sameItems xs ys
  | _, _ => false

/-- Every member of the first list has an equal one in the second. -/
def membersIn : List Value → List Value → Bool
  | [], _ => true
  | x :: xs, ys => ys.any (fun y => same x y) && membersIn xs ys

/-- Every entry of the first list has an equal one in the second. -/
def entriesIn : List (Value × Value) → List (Value × Value) → Bool
  | [], _ => true
  | (k, v) :: es, fs => fs.any (fun f => same k f.1 && same v f.2) && entriesIn es fs

end

/-- Empty text and collections, zero, `false` and `null` do not count as given. -/
def isGiven : Value → Bool
  | .null => false
  | .bool b => b
  | .int n => n != 0
  | .float x => !x.isZero
  | .text s => !s.isEmpty
  | .bytes data => !data.isEmpty
  | .list items | .tuple items | .set items => !items.isEmpty
  | .mapping entries => !entries.isEmpty
  | .day _ | .instant _ | .cycle .. | .again _ => true

mutual

/-- Lists, sets and mappings cannot be keys, nor can a tuple that holds one of them. -/
def canBeKey : Value → Bool
  | .list _ | .set _ | .mapping _ | .cycle .. | .again _ => false
  | .tuple items => canBeKeys items
  | _ => true

def canBeKeys : List Value → Bool
  | [] => true
  | x :: xs => canBeKey x && canBeKeys xs

end

def isText : Value → Bool
  | .text _ => true
  | _ => false

def isMapping : Value → Bool
  | .mapping _ | .cycle _ (.mapping _) => true
  | _ => false

def isNull : Value → Bool
  | .null => true
  | _ => false

/-- The value itself if it counts as given, else a replacement. -/
def orElse (value replacement : Value) : Value := if value.isGiven then value else replacement

/-- Whether a value is one of some texts. -/
def isAmong (value : Value) (names : List String) : Bool :=
  match value with
  | .text s => names.contains s
  | _ => false

end Value

namespace Entries

def find? (entries : Entries) (key : Value) : Option Value :=
  (List.find? (fun e => e.1.same key) entries).map (·.2)

/-- Look-up of a text key. -/
def get? (entries : Entries) (name : String) : Option Value := find? entries (.text name)

def hasKey (entries : Entries) (key : Value) : Bool := List.any entries fun e => e.1.same key

/-- A new key comes last; a key that is there keeps its place and spelling. -/
def insert (entries : Entries) (key value : Value) : Entries :=
  match entries with
  | [] => [(key, value)]
  | e :: rest => if e.1.same key then (e.1, value) :: rest else e :: insert rest key value

def ofList (pairs : List (Value × Value)) : Entries :=
  pairs.foldl (fun entries pair => insert entries pair.1 pair.2) []

end Entries

end Playbook
