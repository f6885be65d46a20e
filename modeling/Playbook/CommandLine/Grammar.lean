import Playbook.Text.Basic
import Playbook.Text.Quoted

/-!
# Reading command lines

A grammar has switches and at most one position for an argument. A long
switch may be shortened as far as it stays the only one that fits, and a value
may follow any switch behind `=`. Behind a short switch without a value, what
follows in the word is taken for more short switches. All behind `--` are
arguments. Words are read from the left, and the first trouble or request for
help ends the reading.
-/

namespace Playbook.CommandLine

inductive Effect where
  | mark
  | value
  | values
  | help
  | version
deriving DecidableEq, Repr

structure Switch where
  names : List String
  field : String
  effect : Effect
  required : Bool
deriving Repr

def Switch.takesValue (switch : Switch) : Bool :=
  switch.effect = .value || switch.effect = .values

inductive Arity where
  | one
  | optional
  /-- A command, to which all that follows belongs. -/
  | command
deriving DecidableEq, Repr

/-- A position without choices takes any argument. -/
structure Position where
  field : String
  arity : Arity
  choices : List String
deriving Repr

structure Grammar where
  switches : List Switch
  position : Option Position
deriving Repr

/-- Why a command line cannot be read. -/
inductive Trouble where
  | ambiguous (word : String) (names : List String)
  | valueExpected (name : String)
  | valueIgnored (name value : String)
  | notAChoice (field value : String) (choices : List String)
  | absent (fields : List String)
  | unrecognized (words : List String)
deriving DecidableEq, Repr

namespace Trouble

def text : Trouble → String
  | .ambiguous word names =>
      "ambiguous option: " ++ word ++ " could match " ++ Text.join ", " names
  | .valueExpected name => "argument " ++ name ++ ": expected one argument"
  | .valueIgnored name value =>
      "argument " ++ name ++ ": ignored explicit argument " ++ Text.quote value
  | .notAChoice field value choices =>
      "argument " ++ field ++ ": invalid choice: " ++ Text.quote value ++ " (choose from " ++
        Text.join ", " (choices.map Text.quote) ++ ")"
  | .absent fields => "the following arguments are required: " ++ Text.join ", " fields
  | .unrecognized words => "unrecognized arguments: " ++ Text.join " " words

end Trouble

/-- What ends the reading early. -/
inductive Stop where
  | trouble (trouble : Trouble)
  | help (command : Option String)
  | version
deriving DecidableEq, Repr

/-! ## Words -/

inductive Word where
  | argument (text : String)
  | divider
  /-- A switch as it was written, which may be none of the grammar, with the rest of its word. -/
  | switch (text name : String) (switch : Option Switch) (attached : Option String)

namespace Word

def text : Word → String
  | .argument text => text
  | .divider => "--"
  | .switch text .. => text

def isSwitch : Word → Bool
  | .switch .. => true
  | _ => false

end Word

def Grammar.find? (grammar : Grammar) (name : String) : Option Switch :=
  grammar.switches.find? fun switch => switch.names.contains name

/-- The text in front of the first `=` and, if there is one, the text behind it. -/
def cutAtEquals (word : String) : String × Option String :=
  let name := word.toList.takeWhile (· != '=')
  match word.toList.dropWhile (· != '=') with
  | [] => (word, none)
  | _ :: value => (String.ofList name, some (String.ofList value))

def allNames (grammar : Grammar) : List (String × Switch) :=
  grammar.switches.flatMap fun switch => switch.names.map fun name => (name, switch)

/-- The switches that a word may stand for, each with its full name and the rest of the word. -/
def candidates (grammar : Grammar) (word : String) : List (String × Switch × Option String) :=
  if word.startsWith "--" then
    let (start, value) := cutAtEquals word
    ((allNames grammar).filter fun (name, _) => name.startsWith start).map fun (name, switch) =>
      (name, switch, value)
  else
    let short := String.ofList (word.toList.take 2)
    let glued := String.ofList (word.toList.drop 2)
    (allNames grammar).filterMap fun (name, switch) =>
      if name == short then some (name, switch, some glued)
      else if name.startsWith word then some (name, switch, none)
      else none

def allDigits (text : List Char) : Bool := text.all Text.isDigit

/-- A number with a minus sign is an argument; a line end may follow it. -/
def isNegativeNumber (word : String) : Bool :=
  match word.toList with
  | '-' :: rest =>
      let digits := if rest.getLast? = some '\n' then rest.dropLast else rest
      let whole := digits.takeWhile (· != '.')
      match digits.dropWhile (· != '.') with
      | [] => !whole.isEmpty && allDigits whole
      | _ :: places => allDigits whole && !places.isEmpty && allDigits places
  | _ => false

/-- A word that is no divider. -/
def readWord (grammar : Grammar) (word : String) : Except Stop Word :=
  if !word.startsWith "-" || word == "-" then .ok (.argument word)
  else match grammar.find? word with
    | some switch => .ok (.switch word word (some switch) none)
    | none =>
        let (name, value) := cutAtEquals word
        match grammar.find? name, value with
        | some switch, some value => .ok (.switch word name (some switch) (some value))
        | _, _ =>
            match candidates grammar word with
            | [(name, switch, attached)] => .ok (.switch word name (some switch) attached)
            | [] =>
                if isNegativeNumber word || word.toList.contains ' ' then .ok (.argument word)
                else .ok (.switch word word none none)
            | several => .error (.trouble (.ambiguous word (several.map (·.1))))

def readWords (grammar : Grammar) : List String → Except Stop (List Word)
  | [] => .ok []
  | word :: rest =>
      if word == "--" then .ok (.divider :: rest.map .argument)
      else do
        let first ← readWord grammar word
        return first :: (← readWords grammar rest)

/-! ## Going through the words -/

/--
What has been read: the values of fields, the words of a command, words
without a place. A field that was given something else than a text has `none`.
-/
structure Parsed where
  fields : List (String × Option String)
  command : Option (List String)
  surplus : List String

namespace Parsed

def empty : Parsed := ⟨[], none, []⟩

def values (parsed : Parsed) (field : String) : List (Option String) :=
  (parsed.fields.filter fun entry => entry.1 == field).map (·.2)

/-- The last value of a field; what is no text is as good as an empty one. -/
def value? (parsed : Parsed) (field : String) : Option String :=
  (parsed.values field).getLast?.map fun value => value.getD ""

def has (parsed : Parsed) (field : String) : Bool := (parsed.value? field).isSome

def add (parsed : Parsed) (field : String) (value : Option String) : Parsed :=
  { parsed with fields := parsed.fields ++ [(field, value)] }

def addSurplus (parsed : Parsed) (words : List String) : Parsed :=
  { parsed with surplus := parsed.surplus ++ words }

end Parsed

/-- A divider in the place of a value is no text. -/
def textOf? (value : String) : Option String := if value = "--" then none else some value

/-- What a switch does, given its value if it takes one. -/
def apply (command : Option String) (parsed : Parsed) (switch : Switch) (value : String) :
    Except Stop Parsed :=
  match switch.effect with
  | .help => .error (.help command)
  | .version => .error .version
  | _ => .ok (parsed.add switch.field (textOf? value))

/-- The switches in one word: those in front, and the last with what is attached to it. -/
structure Cluster where
  front : List Switch
  name : String
  last : Switch
  attached : Option String

/-- Splits the characters behind a switch. -/
def cluster (grammar : Grammar) (name : String) (switch : Switch) :
    List Char → Except Stop Cluster
  | [] =>
      if switch.takesValue then .ok ⟨[], name, switch, some ""⟩
      else .error (.trouble (.valueIgnored name ""))
  | c :: rest =>
      if switch.takesValue then .ok ⟨[], name, switch, some (String.ofList (c :: rest))⟩
      else
        let next := String.ofList ['-', c]
        match grammar.find? next, name.startsWith "--", rest with
        | some found, false, [] => .ok ⟨[switch], next, found, none⟩
        | some found, false, rest => do
            let others ← cluster grammar next found rest
            return { others with front := switch :: others.front }
        | _, _, _ => .error (.trouble (.valueIgnored name (String.ofList (c :: rest))))

/-- The value of a switch, in its word or in the next one, and the words that are left. -/
def valueFor (name : String) (switch : Switch) (attached : Option String) (rest : List Word) :
    Except Stop (String × List Word) :=
  match switch.takesValue, attached, rest with
  | false, _, _ => .ok ("", rest)
  | true, some value, _ => .ok (value, rest)
  | true, none, .argument value :: others => .ok (value, others)
  | true, none, _ => .error (.trouble (.valueExpected name))

/-- A switch with what follows it; the words that are left come back. -/
def takeSwitch (grammar : Grammar) (command : Option String) (parsed : Parsed) (name : String)
    (switch : Switch) (attached : Option String) (rest : List Word) :
    Except Stop (Parsed × List Word) := do
  let found ← match attached with
    | some attached => cluster grammar name switch attached.toList
    | none => pure ⟨[], name, switch, none⟩
  let (value, rest) ← valueFor found.name found.last found.attached rest
  let parsed ← found.front.foldlM (fun parsed switch => apply command parsed switch "") parsed
  return (← apply command parsed found.last value, rest)

def isDivider : Word → Bool
  | .divider => true
  | _ => false

/-- The words that a position takes from the front, and the others. -/
def takeWords (arity : Arity) (words : List Word) : Option (List Word × List Word) :=
  let dividers := words.takeWhile isDivider
  match arity, words.dropWhile isDivider with
  | .command, .argument text :: rest => some (dividers ++ .argument text :: rest, [])
  | .one, .argument text :: rest | .optional, .argument text :: rest =>
      some (dividers ++ .argument text :: rest.takeWhile isDivider, rest.dropWhile isDivider)
  | .optional, rest => some (dividers, rest)
  | _, _ => none

def checked (position : Position) (value : String) : Except Stop String :=
  if position.choices.isEmpty || position.choices.contains value then .ok value
  else .error (.trouble (.notAChoice position.field value position.choices))

def fillPosition (parsed : Parsed) (position : Position) (words : List Word) :
    Except Stop Parsed :=
  let texts := words.map Word.text
  match position.arity with
  | .command => do
      let _ ← checked position (texts.headD "")
      return { parsed with command := some texts }
  | _ =>
      match texts.erase "--" with
      | [] => .ok parsed
      | value :: _ => do return parsed.add position.field (some (← checked position value))

/-- Progress of a reading. -/
structure Progress where
  parsed : Parsed
  position : Option Position
  words : List Word

/-- Fills the position from the front if it takes something there. -/
def takePosition (progress : Progress) : Except Stop Progress :=
  match progress.position with
  | none => .ok progress
  | some position =>
      match takeWords position.arity progress.words with
      | none => .ok progress
      | some (taken, rest) => do
          return ⟨← fillPosition progress.parsed position taken, none, rest⟩

/-- One switch, or the position and the words in front of the next switch. -/
def advance (grammar : Grammar) (command : Option String) (progress : Progress) :
    Except Stop Progress :=
  match progress.words with
  | .switch text name switch attached :: rest =>
      match switch with
      | none => .ok { progress with parsed := progress.parsed.addSurplus [text], words := rest }
      | some switch => do
          let (parsed, rest) ←
            takeSwitch grammar command progress.parsed name switch attached rest
          return { progress with parsed, words := rest }
  | words => do
      let next ← takePosition progress
      if next.words.length < words.length then return next
      return { next with
        parsed := next.parsed.addSurplus ((words.takeWhile (!·.isSwitch)).map Word.text)
        words := words.dropWhile (!·.isSwitch) }

/-- Goes on until no switch is left; each step takes a word at least. -/
def advanceAll (grammar : Grammar) (command : Option String) : Nat → Progress →
    Except Stop Progress
  | 0, progress => .ok progress
  | steps + 1, progress =>
      if progress.words.any Word.isSwitch then do
        advanceAll grammar command steps (← advance grammar command progress)
      else .ok progress

def absentFields (grammar : Grammar) (progress : Progress) : List String :=
  let positions := match progress.position with
    | some position => if position.arity = .optional then [] else [position.field]
    | none => []
  positions ++ (grammar.switches.filter fun switch =>
    switch.required && !progress.parsed.has switch.field).map fun switch => switch.names.headD ""

/-- Reads the words in front of a command, or those of the given command. -/
def parse (grammar : Grammar) (command : Option String) (line : List String) :
    Except Stop Parsed := do
  let words ← readWords grammar line
  let progress ← advanceAll grammar command words.length ⟨.empty, grammar.position, words⟩
  let progress ← takePosition progress
  let absent := absentFields grammar progress
  if !absent.isEmpty then throw (.trouble (.absent absent))
  return progress.parsed.addSurplus (progress.words.map Word.text)

end Playbook.CommandLine
