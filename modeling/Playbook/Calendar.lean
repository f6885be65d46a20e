/-!
# Days and instants

Calendar values of manifests, with their standard text. An instant may carry
an offset from universal time, in minutes.
-/

namespace Playbook

structure Day where
  year : Nat
  month : Nat
  day : Nat
deriving DecidableEq, Repr, Inhabited

structure Instant where
  day : Day
  hour : Nat
  minute : Nat
  second : Nat
  micro : Nat
  offset : Option Int
deriving DecidableEq, Repr, Inhabited

def padded (width : Nat) (n : Nat) : String :=
  let digits := Nat.toDigits 10 n
  String.ofList (List.replicate (width - digits.length) '0' ++ digits)

namespace Day

def isLeap (year : Nat) : Bool := year % 4 == 0 && (year % 100 != 0 || year % 400 == 0)

def monthLength (year month : Nat) : Nat :=
  if month = 2 then (if isLeap year then 29 else 28)
  else if month = 4 ∨ month = 6 ∨ month = 9 ∨ month = 11 then 30 else 31

/-- What is wrong with a day, if anything. -/
def problem? (d : Day) : Option String :=
  if d.year = 0 ∨ 9999 < d.year then some ("year " ++ toString d.year ++ " is out of range")
  else if d.month = 0 ∨ 12 < d.month then some "month must be in 1..12"
  else if d.day = 0 ∨ monthLength d.year d.month < d.day then
    some "day is out of range for month"
  else none

def text (d : Day) : String :=
  padded 4 d.year ++ "-" ++ padded 2 d.month ++ "-" ++ padded 2 d.day

/-- Days from a fixed day; later days have greater numbers. -/
def number (d : Day) : Int :=
  let year := d.year - 1
  let months := (List.range (d.month - 1)).map fun m => monthLength d.year (m + 1)
  let ended := months.foldl (fun total days => total + days) 0
  ((365 * year + year / 4 - year / 100 + year / 400 + ended + d.day : Nat) : Int)

/-- The day that comes a number of days after the first of January 1970. -/
def ofEpoch (days : Nat) : Day :=
  let shifted := days + 719468
  let era := shifted / 146097
  let dayOfEra := shifted % 146097
  let yearOfEra :=
    (dayOfEra - dayOfEra / 1460 + dayOfEra / 36524 - dayOfEra / 146096) / 365
  let dayOfYear := dayOfEra - (365 * yearOfEra + yearOfEra / 4 - yearOfEra / 100)
  let march := (5 * dayOfYear + 2) / 153
  let month := if march < 10 then march + 3 else march - 9
  { year := yearOfEra + era * 400 + (if month ≤ 2 then 1 else 0)
    month
    day := dayOfYear - (153 * march + 2) / 5 + 1 }

end Day

namespace Instant

def problem? (t : Instant) : Option String :=
  t.day.problem?.or <|
  if 23 < t.hour then some "hour must be in 0..23"
  else if 59 < t.minute then some "minute must be in 0..59"
  else if 59 < t.second then some "second must be in 0..59"
  else none

def offsetText (minutes : Int) : String :=
  let size := minutes.natAbs
  (if minutes < 0 then "-" else "+") ++ padded 2 (size / 60) ++ ":" ++ padded 2 (size % 60)

/-- The standard text, with a chosen mark between day and time. -/
def textWith (mark : String) (t : Instant) : String :=
  t.day.text ++ mark ++ padded 2 t.hour ++ ":" ++ padded 2 t.minute ++ ":" ++
    padded 2 t.second ++ (if t.micro = 0 then "" else "." ++ padded 6 t.micro) ++
    (match t.offset with
     | none => ""
     | some minutes => offsetText minutes)

def text (t : Instant) : String := t.textWith "T"

/-- The instant that comes a number of microseconds after the start of 1970. -/
def ofEpoch (micros : Nat) : Instant :=
  let seconds := micros / 1000000
  { day := Day.ofEpoch (seconds / 86400)
    hour := seconds / 3600 % 24
    minute := seconds / 60 % 60
    second := seconds % 60
    micro := micros % 1000000
    offset := some 0 }

/-- Microseconds from a fixed instant in universal time. -/
def number (t : Instant) : Int :=
  let minutes := t.day.number * 1440 + t.hour * 60 + t.minute - t.offset.getD 0
  (minutes * 60 + t.second) * 1000000 + t.micro

/-- Instants with an offset are equal when they are the same moment. -/
def same (s t : Instant) : Bool :=
  s.offset.isSome == t.offset.isSome && s.number == t.number

end Instant

end Playbook
