import Playbook.Text.Case
import Playbook.Value.Reading

/-!
# Plain scalars

The text of a plain scalar decides what it is: a truth value, a number, a
day or an instant, nothing, or text. Numbers may have underscores, and parts
to the base 60 between colons. A line feed at the end of the text does not
count for the decision, but the reading of a value sees it.
-/

namespace Playbook.Yaml

inductive ScalarKind where
  | truth
  | float
  | int
  | merge
  | null
  | timestamp
  | equals
  | text
deriving DecidableEq, Repr

namespace Scalar

def truths : List (String × Bool) :=
  [("yes", true), ("no", false), ("true", true), ("false", false), ("on", true), ("off", false)]

/-- Small letters, capitals, or a capital and small letters. -/
def spellings (word : String) : List String :=
  [word, word.capitalize, word.map Char.toUpper]

def isTruth (text : String) : Bool := truths.any fun entry => (spellings entry.1).contains text

def isNull (text : String) : Bool :=
  text.isEmpty || text == "~" || (spellings "null").contains text

def isDigitOrUnderscore (c : Char) : Bool := c.isDigit || c == '_'

def unsign : List Char → List Char
  | '-' :: rest => rest
  | '+' :: rest => rest
  | rest => rest

/-! ## Shapes of numbers -/

def isSexagesimalPart (part : List Char) : Bool :=
  match part with
  | [c] => c.isDigit
  | [c, d] => decide ('0' ≤ c) && decide (c ≤ '5') && d.isDigit
  | _ => false

def startsWithDigit (least : Char) (text : List Char) : Bool :=
  match text with
  | [] => false
  | c :: rest => decide (least ≤ c) && decide (c ≤ '9') && rest.all isDigitOrUnderscore

/-- Whole parts between colons: a number, then parts below 60. -/
def isSexagesimal (least : Char) (text : List Char) : Bool :=
  match Text.pieces ':' text with
  | first :: part :: parts => startsWithDigit least first && (part :: parts).all isSexagesimalPart
  | _ => false

def isExponent (text : List Char) : Bool :=
  match text with
  | e :: sign :: c :: rest =>
      (e == 'e' || e == 'E') && (sign == '-' || sign == '+') && (c :: rest).all Char.isDigit
  | _ => false

/-- Digits and underscores, then nothing or an exponent. -/
def isFractionTail (text : List Char) : Bool :=
  let rest := text.dropWhile isDigitOrUnderscore
  rest.isEmpty || isExponent rest

def isSpecialFloat (text : List Char) : Bool :=
  let name := String.ofList
  [".inf", ".Inf", ".INF"].contains (name (unsign text)) ||
    [".nan", ".NaN", ".NAN"].contains (name text)

def isFloat (text : List Char) : Bool :=
  let unsigned := unsign text
  let whole := unsigned.takeWhile (· != '.')
  let behind := unsigned.dropWhile (· != '.')
  let withPoint := match behind with
    | '.' :: fraction =>
        (startsWithDigit '0' whole && isFractionTail fraction) ||
          (isSexagesimal '0' whole && fraction.all isDigitOrUnderscore)
    | _ => false
  let pointFirst := match text with
    | '.' :: c :: rest => c.isDigit && isFractionTail rest
    | _ => false
  withPoint || pointFirst || isSpecialFloat text

def isInt (text : List Char) : Bool :=
  match unsign text with
  | ['0'] => true
  | '0' :: 'b' :: rest => !rest.isEmpty && rest.all fun c => c == '0' || c == '1' || c == '_'
  | '0' :: 'x' :: rest =>
      !rest.isEmpty && rest.all fun c =>
        c.isDigit || c == '_' || (decide ('a' ≤ c) && decide (c ≤ 'f')) ||
          (decide ('A' ≤ c) && decide (c ≤ 'F'))
  | '0' :: rest => rest.all fun c => (decide ('0' ≤ c) && decide (c ≤ '7')) || c == '_'
  | rest => startsWithDigit '1' rest || isSexagesimal '1' rest

/-! ## Shapes of timestamps -/

/-- What a timestamp is made of, each part as it is written. -/
structure Timestamp where
  year : List Char
  month : List Char
  day : List Char
  time : Option (List Char × List Char × List Char)
  fraction : List Char
  sign : Option Char
  zoneHour : List Char
  zoneMinute : List Char
  universal : Bool

/-- At least `least` and at most `most` digits from the front. -/
def digits? (least most : Nat) (text : List Char) : Option (List Char × List Char) :=
  let run := (text.takeWhile Char.isDigit).take most
  if least ≤ run.length then some (run, text.drop run.length) else none

def char? (c : Char) : List Char → Option (List Char)
  | x :: rest => if x = c then some rest else none
  | [] => none

def isGap (c : Char) : Bool := c == ' ' || c == '\t'

/-- The mark between day and time. -/
def timeMark? : List Char → Option (List Char)
  | 'T' :: rest => some rest
  | 't' :: rest => some rest
  | c :: rest => if isGap c then some (rest.dropWhile isGap) else none
  | [] => none

/-- The zone at the end: nothing, `Z`, or a signed offset. -/
def zone? (stamp : Timestamp) (text : List Char) : Option Timestamp :=
  match text.dropWhile isGap with
  | [] => if text.isEmpty then some stamp else none
  | ['Z'] => some { stamp with universal := true }
  | sign :: rest => do
      if sign != '-' && sign != '+' then none
      let (hour, rest) ← digits? 1 2 rest
      let stamp := { stamp with sign := some sign, zoneHour := hour }
      match rest with
      | [] => some stamp
      | ':' :: rest =>
          let (minute, rest) ← digits? 2 2 rest
          if rest.isEmpty then some { stamp with zoneMinute := minute } else none
      | _ => none

def timed? (stamp : Timestamp) (text : List Char) : Option Timestamp := do
  let rest ← timeMark? text
  let (hour, rest) ← digits? 1 2 rest
  let rest ← char? ':' rest
  let (minute, rest) ← digits? 2 2 rest
  let rest ← char? ':' rest
  let (second, rest) ← digits? 2 2 rest
  let stamp := { stamp with time := some (hour, minute, second) }
  match rest with
  | '.' :: rest =>
      zone? { stamp with fraction := rest.takeWhile Char.isDigit } (rest.dropWhile Char.isDigit)
  | rest => zone? stamp rest

/-- One digit is enough for month and day. -/
def timestamp? (text : List Char) : Option Timestamp := do
  let (year, rest) ← digits? 4 4 text
  let rest ← char? '-' rest
  let (month, rest) ← digits? 1 2 rest
  let rest ← char? '-' rest
  let (day, rest) ← digits? 1 2 rest
  let stamp : Timestamp := ⟨year, month, day, none, [], none, [], [], false⟩
  if rest.isEmpty then some stamp else timed? stamp rest

/-- A plain day has two digits for month and day; with a time one is enough. -/
def isTimestamp (text : List Char) : Bool :=
  match timestamp? text with
  | none => false
  | some stamp => stamp.time.isSome || (stamp.month.length == 2 && stamp.day.length == 2)

/-- The text without one line feed at its end. -/
def withoutLineFeed (text : List Char) : List Char :=
  if text.getLast? = some '\n' then text.dropLast else text

/-- What a plain scalar is by its text; a lone line feed is text. -/
def kind (text : String) : ScalarKind :=
  let chars := withoutLineFeed text.toList
  let word := String.ofList chars
  if text = "\n" then .text
  else if isTruth word then .truth
  else if isFloat chars then .float
  else if isInt chars then .int
  else if word = "<<" then .merge
  else if isNull word then .null
  else if isTimestamp chars then .timestamp
  else if word = "=" then .equals
  else .text

/-! ## Reading -/

def isMinus (text : List Char) : Bool := text.head? == some '-'

def wholeIn (base : Nat) (text : List Char) : Attempt Int :=
  Value.wholeIn base (Text.quote (String.ofList text)) text

def sexagesimal (parts : List Int) : Int := parts.foldl (fun sum part => sum * 60 + part) 0

def readSize (text : List Char) : Attempt Int :=
  match text with
  | [] => .error .pastEnd
  | ['0'] => .ok 0
  | '0' :: 'b' :: rest => wholeIn 2 rest
  | '0' :: 'x' :: rest => wholeIn 16 rest
  | '0' :: rest => wholeIn 8 ('0' :: rest)
  | text =>
      if text.contains ':' then do return sexagesimal (← (Text.pieces ':' text).mapM (wholeIn 10))
      else wholeIn 10 text

def readInt (text : String) : Attempt Value := do
  let chars := text.toList.filter (· != '_')
  let size ← readSize (unsign chars)
  return .int (if isMinus chars then -size else size)

/-- `mark` is for a number that is none. -/
def decimal (mark : String) (text : List Char) : Attempt Binary64 :=
  match Text.decimal? mark text with
  | some x => .ok x
  | none => .error (.notANumber (Text.quote (String.ofList text)))

/-- The parts from the last one on, each worth sixty times the one behind it. -/
def sexagesimalSum (mark : String) (sum : Binary64) (unit : Nat) :
    List Binary64 → Attempt Binary64
  | [] => .ok sum
  | part :: parts =>
      match Binary64.ofInt unit with
      | .infinity _ => .error (.overflow .whole)
      | factor =>
          sexagesimalSum mark (sum.add mark (part.times mark factor)) (unit * 60) parts

/-- The `nan` that is written as such. -/
def plainNan : Binary64 := .nan ""

def readFloat (mark text : String) : Attempt Value := do
  let chars := (Text.lower (String.ofList (text.toList.filter (· != '_')))).toList
  if chars.isEmpty then throw .pastEnd
  let unsigned := unsign chars
  let size ←
    if unsigned = ".inf".toList then pure (.infinity false)
    else if unsigned = ".nan".toList then pure plainNan
    else if unsigned.contains ':' then do
      let parts ← (Text.pieces ':' unsigned).mapM (decimal mark)
      sexagesimalSum mark (Binary64.zero false) 1 parts.reverse
    else decimal mark unsigned
  return .float (if isMinus chars then size.negate else size)

def readTruth (text : String) : Attempt Value :=
  match truths.lookup (Text.lower text) with
  | some b => .ok (.bool b)
  | none => .error (.missingKey (Text.lower text))

def number (digits : List Char) : Nat := (Text.digits? 10 digits).getD 0

/-- Six digits of a second, cut or filled up with zeros. -/
def microseconds (fraction : List Char) : Nat :=
  number ((fraction ++ List.replicate 6 '0').take 6)

def zoneOffset (stamp : Timestamp) : Option Int :=
  match stamp.sign with
  | none => if stamp.universal then some 0 else none
  | some sign =>
      let size : Int := number stamp.zoneHour * 60 + number stamp.zoneMinute
      some (if sign = '-' then -size else size)

def checked (problem : Option String) (v : Value) : Attempt Value :=
  match problem with
  | none => .ok v
  | some text => .error (.outOfRange text)

def offsetProblem? (offset : Option Int) : Option String :=
  match offset with
  | none => none
  | some minutes =>
      if minutes.natAbs < 1440 then none
      else
        let seconds := minutes.emod 1440 * 60
        some ("offset must be a timedelta strictly between -timedelta(hours=24) and " ++
          "timedelta(hours=24), not datetime.timedelta(days=" ++ toString (minutes.ediv 1440) ++
          (if seconds = 0 then "" else ", seconds=" ++ toString seconds) ++ ").")

def readTimestamp (text : String) : Attempt Value :=
  match timestamp? (withoutLineFeed text.toList) with
  | none => .error .lacksOperation
  | some stamp =>
      let day : Day := ⟨number stamp.year, number stamp.month, number stamp.day⟩
      match stamp.time with
      | none => checked day.problem? (.day day)
      | some (hour, minute, second) =>
          let offset := zoneOffset stamp
          let instant : Instant :=
            { day, hour := number hour, minute := number minute, second := number second
              micro := microseconds stamp.fraction, offset }
          checked ((offsetProblem? offset).or instant.problem?) (.instant instant)

end Scalar

end Playbook.Yaml
