import Playbook.Value
import Playbook.Binary64.Shortest
import Playbook.Text.Number
import Playbook.Text.Quoted

/-!
# Text of values

`display` is the text that stands for a value in records, scripts and
messages. Text is shown as it is; `quoted` shows text in quotes, and so do
collections with what they hold. A collection inside of itself is shown as
points between its brackets.
-/

namespace Playbook

namespace Day

def quoted (d : Day) : String :=
  "datetime.date(" ++ toString d.year ++ ", " ++ toString d.month ++ ", " ++ toString d.day ++ ")"

end Day

namespace Instant

def quotedOffset (minutes : Int) : String :=
  if minutes = 0 then "datetime.timezone.utc"
  else
    let days := minutes / 1440
    let seconds := minutes % 1440 * 60
    let parts := (if days = 0 then [] else ["days=" ++ toString days]) ++
      (if seconds = 0 then [] else ["seconds=" ++ toString seconds])
    "datetime.timezone(datetime.timedelta(" ++ ", ".intercalate parts ++ "))"

/-- Seconds and microseconds are left out at the end where they are zero. -/
def quoted (t : Instant) : String :=
  let small :=
    if t.micro = 0 then (if t.second = 0 then [] else [t.second]) else [t.second, t.micro]
  let numbers := [t.day.year, t.day.month, t.day.day, t.hour, t.minute] ++ small
  let zone := match t.offset with
    | none => ""
    | some minutes => ", tzinfo=" ++ quotedOffset minutes
  "datetime.datetime(" ++ ", ".intercalate (numbers.map toString) ++ zone ++ ")"

end Instant

namespace Value

/-- What is shown for a collection inside of itself. -/
def points : Value → String
  | .list _ => "[...]"
  | .tuple _ => "(...)"
  | .mapping _ => "\x7b...\x7d"
  | _ => "..."

/-- A tuple of one keeps a comma. -/
def quotedTuple (items : List String) : String :=
  match items with
  | [item] => "(" ++ item ++ ",)"
  | _ => "(" ++ ", ".intercalate items ++ ")"

def quotedSet (members : List String) : String :=
  if members.isEmpty then "set()" else "\x7b" ++ ", ".intercalate members ++ "\x7d"

mutual

/-- `around` holds the names of the collections around, each with its points. -/
def quotedIn (around : List (Nat × String)) : Value → String
  | .null => "None"
  | .bool b => if b then "True" else "False"
  | .int n => toString n
  | .float x => x.text
  | .text s => Text.quote s
  | .bytes data => Text.quoteBytes data
  | .day d => d.quoted
  | .instant t => t.quoted
  | .list items => "[" ++ ", ".intercalate (quotedItems around items) ++ "]"
  | .tuple items => quotedTuple (quotedItems around items)
  | .set members => quotedSet (quotedItems around members)
  | .mapping entries => "\x7b" ++ ", ".intercalate (quotedEntries around entries) ++ "\x7d"
  | .cycle name content =>
      match around.lookup name with
      | some shown => shown
      | none => quotedIn ((name, points content) :: around) content
  | .again name => (around.lookup name).getD "..."

def quotedItems (around : List (Nat × String)) : List Value → List String
  | [] => []
  | x :: xs => quotedIn around x :: quotedItems around xs

def quotedEntries (around : List (Nat × String)) : List (Value × Value) → List String
  | [] => []
  | (k, v) :: es => (quotedIn around k ++ ": " ++ quotedIn around v) :: quotedEntries around es

end

def quoted (v : Value) : String := quotedIn [] v

def display : Value → String
  | .text s => s
  | .day d => d.text
  | .instant t => t.textWith " "
  | v => quoted v

/-! ## Numbers that are too long to be shown -/

def digitBound : Nat := Nat.pow 10 Text.digitLimit

mutual

/-- Whether no whole number in a value has more than `Text.digitLimit` digits. -/
def isShowable : Value → Bool
  | .int n => decide (n.natAbs < digitBound)
  | .list items | .tuple items | .set items => areShowable items
  | .mapping entries => areShowableEntries entries
  | .cycle _ content => isShowable content
  | _ => true

def areShowable : List Value → Bool
  | [] => true
  | x :: xs => isShowable x && areShowable xs

def areShowableEntries : List (Value × Value) → Bool
  | [] => true
  | (k, v) :: es => isShowable k && isShowable v && areShowableEntries es

end

end Value

end Playbook
