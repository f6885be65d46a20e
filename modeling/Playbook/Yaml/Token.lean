import Playbook.Yaml.Cursor

/-!
# Tokens of a YAML text

`Token.scan` cuts a text into tokens. Indentation becomes tokens for the
start and end of block collections. A scalar in front of a colon turns out to
be a key only at the colon; until then its place is kept as a possible key,
one for each level of flow collections, and the tokens from there on are not
certain. Where a text cannot be cut any further, the certain tokens in front
of the trouble count.
-/

namespace Playbook.Yaml

inductive Token where
  | version (major : Nat)
  | tagHandle (handle beginning : String)
  | otherDirective
  | documentStart
  | documentEnd
  | streamEnd
  | blockSequenceStart
  | blockMappingStart
  | blockEnd
  | flowSequenceStart
  | flowSequenceEnd
  | flowMappingStart
  | flowMappingEnd
  | flowEntry
  | blockEntry
  | key
  | value
  | alias (name : String)
  | anchor (name : String)
  | tag (handle : Option String) (suffix : String)
  | scalar (text : String) (plain : Bool)
deriving DecidableEq, Repr, Inhabited

/-- A place where a key may have started: the number of its first token, and where it stood. -/
structure PossibleKey where
  token : Nat
  required : Bool
  index : Nat
  line : Nat
  column : Nat

structure Scan where
  cursor : Cursor
  /-- The tokens so far, the last one first. -/
  emitted : List Token
  count : Nat
  flowLevel : Nat
  indent : Int
  indents : List Int
  allowKey : Bool
  keys : List (Nat × PossibleKey)

/-- The state in which a scanner fails stays in sight. -/
abbrev Scanner := ExceptT Trouble (StateM Scan)

namespace Scanner

def fail : Scanner α := throw .malformed

def ofResult (result : Result α) : Scanner α := ExceptT.mk (pure result)

def require (holds : Bool) : Scanner Unit := if holds then pure () else fail

def cursor : Scanner Cursor := return (← get).cursor

def moveTo (c : Cursor) : Scanner Unit := modify fun s => { s with cursor := c }

def forward (n : Nat) : Scanner Unit := modify fun s => { s with cursor := s.cursor.steps n }

def inFlow : Scanner Bool := return decide (0 < (← get).flowLevel)

def emit (token : Token) : Scanner Unit :=
  modify fun s => { s with emitted := token :: s.emitted, count := s.count + 1 }

/-- Puts a token in front of the one with a number. -/
def insert (place : Nat) (token : Token) : Scanner Unit := modify fun s =>
  let (behind, front) := s.emitted.splitAt (s.count - place)
  { s with emitted := behind ++ token :: front, count := s.count + 1 }

def allowKey (allowed : Bool) : Scanner Unit := modify fun s => { s with allowKey := allowed }

/-! ## Possible keys and indentation -/

/-- A key ends on its line and within 1024 characters. -/
def isStale (c : Cursor) (key : PossibleKey) : Bool :=
  key.line != c.line || decide (1024 < c.index - key.index)

/-- A required key has to be a key. -/
def dropStaleKeys : Scanner Unit := do
  let s ← get
  require (!s.keys.any fun entry => isStale s.cursor entry.2 && entry.2.required)
  set { s with keys := s.keys.filter fun entry => !isStale s.cursor entry.2 }

def removeKey : Scanner Unit := do
  let s ← get
  match s.keys.lookup s.flowLevel with
  | none => pure ()
  | some key =>
      require (!key.required)
      set { s with keys := s.keys.filter fun entry => entry.1 != s.flowLevel }

def saveKey : Scanner Unit := do
  let s ← get
  if s.allowKey then
    removeKey
    let c := s.cursor
    let required := s.flowLevel == 0 && s.indent == (c.column : Int)
    let key : PossibleKey := ⟨s.count, required, c.index, c.line, c.column⟩
    modify fun s => { s with keys := (s.flowLevel, key) :: s.keys }

def unwindFrom (column : Int) : Int → List Int → Nat → Int × List Int × Nat
  | indent, [], closed => (indent, [], closed)
  | indent, outer :: rest, closed =>
      if column < indent then unwindFrom column outer rest (closed + 1)
      else (indent, outer :: rest, closed)

/-- Closes the block collections that are indented more than a column. -/
def unwind (column : Int) : Scanner Unit := modify fun s =>
  if 0 < s.flowLevel then s
  else
    let (indent, indents, closed) := unwindFrom column s.indent s.indents 0
    { s with
      indent, indents
      emitted := List.replicate closed .blockEnd ++ s.emitted
      count := s.count + closed }

/-- Opens a block collection at a column if it is indented more than the one around it. -/
def addIndent (column : Int) : Scanner Bool := do
  let s ← get
  if s.indent < column then
    set { s with indents := s.indent :: s.indents, indent := column }
    return true
  else return false

/-! ## Space and directives -/

def isLineChar (c : Char) : Bool := !isBreak c

def skipComment (c : Cursor) : Cursor := if c.isAt (· == '#') then c.skip isLineChar else c

/-- Skips blanks, comments and line breaks up to the next token. -/
def skipToToken : Nat → Scanner Unit
  | 0 => pure ()
  | fuel + 1 => do
      let c := skipComment ((← cursor).skip (· == ' '))
      match c.lineBreak? with
      | none => moveTo c
      | some (_, c) =>
          moveTo c
          if !(← inFlow) then allowKey true
          skipToToken fuel

/-- Nothing but a comment may follow on the line. -/
def skipRestOfLine : Scanner Unit := do
  let c := skipComment ((← cursor).skip (· == ' '))
  require (c.endsOr 0 isBreak)
  match c.lineBreak? with
  | none => moveTo c
  | some (_, c) => moveTo c

def isWordChar (c : Char) : Bool := c.isAlphanum || c == '-' || c == '_'

def isUriChar (c : Char) : Bool :=
  c.isAlphanum ||
    ['-', ';', '/', '?', ':', '@', '&', '=', '+', '$', ',', '_', '.', '!', '~', '*', '\'',
      '(', ')', '[', ']', '%'].contains c

def hexValue? (c : Char) : Option Nat :=
  if '0' ≤ c ∧ c ≤ '9' then some (c.toNat - '0'.toNat)
  else if 'a' ≤ c ∧ c ≤ 'f' then some (c.toNat - 'a'.toNat + 10)
  else if 'A' ≤ c ∧ c ≤ 'F' then some (c.toNat - 'A'.toNat + 10)
  else none

def word (p : Char → Bool) : Scanner String := do
  let (run, c) := (← cursor).span p
  require (!run.isEmpty)
  moveTo c
  return String.ofList run

/-- Bytes that are written as percent signs with two digits, up to the first other character. -/
def percentBytes? : List Char → Option (List UInt8 × List Char)
  | '%' :: a :: b :: rest => do
      let high ← hexValue? a
      let low ← hexValue? b
      let (bytes, rest) ← percentBytes? rest
      return ((high * 16 + low).toUInt8 :: bytes, rest)
  | '%' :: _ => none
  | rest => some ([], rest)

/-- A word with the bytes that stand in it read as text. -/
def unescapeUri? (fuel : Nat) (text : List Char) : Option (List Char) :=
  match fuel, text with
  | 0, _ => none
  | _, [] => some []
  | fuel + 1, '%' :: rest => do
      let (bytes, rest) ← percentBytes? ('%' :: rest)
      let found ← String.fromUTF8? (ByteArray.mk bytes.toArray)
      return found.toList ++ (← unescapeUri? fuel rest)
  | fuel + 1, c :: rest => do return c :: (← unescapeUri? fuel rest)

def uri : Scanner String := do
  let text := (← word isUriChar).toList
  match unescapeUri? (text.length + 1) text with
  | some found => return String.ofList found
  | none => fail

def spaces : Scanner Unit := do moveTo ((← cursor).skip (· == ' '))

def isSpace (c : Char) : Bool := c == ' ' || isBreak c

/-- `!`, or a word between two exclamation marks. -/
def tagHandle : Scanner String := do
  require ((← cursor).isAt (· == '!'))
  let (run, c) := (← cursor).step.span isWordChar
  if run.isEmpty && c.isAt (· == ' ') then
    moveTo c
    return "!"
  else
    require (c.isAt (· == '!'))
    moveTo c.step
    return String.ofList ('!' :: run ++ ['!'])

/-- A part of a version number, which must not be too long for a number. -/
def versionPart : Scanner Nat := do
  let digits ← word Char.isDigit
  if Text.digitLimit < digits.length then
    throw (.fault (.tooManyDigits (some digits.length)))
  return digits.toNat?.getD 0

def directive : Scanner Unit := do
  forward 1
  let name ← word isWordChar
  require ((← cursor).endsOr 0 isSpace)
  if name = "YAML" then
    spaces
    let major ← versionPart
    require ((← cursor).isAt (· == '.'))
    forward 1
    let _ ← versionPart
    require ((← cursor).endsOr 0 isSpace)
    emit (.version major)
  else if name = "TAG" then
    spaces
    let handle ← tagHandle
    require ((← cursor).isAt (· == ' '))
    spaces
    let beginning ← uri
    require ((← cursor).endsOr 0 isSpace)
    emit (.tagHandle handle beginning)
  else
    moveTo ((← cursor).skip isLineChar)
    emit .otherDirective
  skipRestOfLine

/-! ## Anchors and tags -/

def isAnchorEnd (c : Char) : Bool :=
  isSpaceOrBreak c || ['?', ':', ',', ']', '}', '%', '@', '\x60'].contains c

def anchorName : Scanner String := do
  forward 1
  let name ← word isWordChar
  require ((← cursor).endsOr 0 isAnchorEnd)
  return name

/-- Whether the word at the cursor has a second exclamation mark. -/
def hasHandle (c : Cursor) : Bool :=
  ((c.rest.drop 1).takeWhile fun x => !isSpace x).contains '!'

def tag : Scanner Unit := do
  let c ← cursor
  let found ←
    if c.peek? 1 == some '<' then do
      forward 2
      let suffix ← uri
      require ((← cursor).isAt (· == '>'))
      forward 1
      pure (none, suffix)
    else if c.endsOr 1 isSpaceOrBreak then do
      forward 1
      pure (none, "!")
    else do
      let handle ← if hasHandle c then tagHandle else do
        forward 1
        pure "!"
      let suffix ← uri
      pure (some handle, suffix)
  require ((← cursor).endsOr 0 isSpace)
  emit (.tag found.1 found.2)

/-! ## Block scalars -/

structure BlockHeader where
  /-- Whether line breaks at the end are all kept, all dropped, or one of them is kept. -/
  keep : Option Bool
  increment : Option Nat

def chomping? (c : Char) : Option Bool :=
  if c = '+' then some true else if c = '-' then some false else none

def increment? (c : Char) : Option Nat :=
  if '0' ≤ c ∧ c ≤ '9' then some (c.toNat - '0'.toNat) else none

/-- A character that can be read as something, if the next one can. -/
def take (read : Char → Option α) : Scanner (Option α) := do
  match ((← cursor).peek? 0).bind read with
  | some x =>
      forward 1
      return some x
  | none => return none

def blockHeader : Scanner BlockHeader := do
  let first ← take chomping?
  let increment ← take increment?
  require (increment != some 0)
  let keep ← if first.isSome then pure first
    else if increment.isSome then take chomping?
    else pure none
  require ((← cursor).endsOr 0 isSpace)
  return ⟨keep, increment⟩

/-- The line breaks in front of the text, and the greatest indentation of an empty line. -/
def leadingBreaks (breaks : List Char) (deepest : Nat) : Nat → Scanner (List Char × Nat)
  | 0 => return (breaks, deepest)
  | fuel + 1 => do
      let c := (← cursor).skip (· == ' ')
      let deepest := if (← cursor).isAt (· == ' ') then max deepest c.column else deepest
      match c.lineBreak? with
      | none => moveTo c; return (breaks, deepest)
      | some (x, c) => moveTo c; leadingBreaks (breaks ++ [x]) deepest fuel

def skipIndent (indent : Nat) (c : Cursor) : Cursor :=
  c.steps (min (c.rest.takeWhile (· == ' ')).length (indent - c.column))

/-- The empty lines in front of a line that is indented far enough. -/
def emptyLines (indent : Nat) (breaks : List Char) : Nat → Scanner (List Char)
  | 0 => return breaks
  | fuel + 1 => do
      let c := skipIndent indent (← cursor)
      match c.lineBreak? with
      | none => moveTo c; return breaks
      | some (x, c) => moveTo c; emptyLines indent (breaks ++ [x]) fuel

/-- The text of pieces of which the last one comes first. -/
def joined (pieces : List (List Char)) : List Char := pieces.reverse.flatten

/-- What the header lets stand of the line breaks behind a block scalar. -/
def blockTail (header : BlockHeader) (breaks lastBreak : List Char) : List (List Char) :=
  [if header.keep == some true then breaks else [],
   if header.keep != some false then lastBreak else []]

def isBlockText (indent : Nat) (c : Cursor) : Bool := c.column == indent && !c.rest.isEmpty

/--
The lines of a block scalar; `pieces` holds those in front, the last one first.
In a folded scalar, a single line break between two lines that do not start
with white space becomes a blank.
-/
def blockLines (folded : Bool) (header : BlockHeader) (indent : Nat)
    (pieces : List (List Char)) (breaks lastBreak : List Char) : Nat → Scanner (List Char)
  | 0 => return joined pieces
  | fuel + 1 => do
      let c ← cursor
      if !isBlockText indent c then
        return joined (blockTail header breaks lastBreak ++ pieces)
      let startsWithText := !c.isAt fun x => x == ' ' || x == '\t'
      let (line, c) := c.span isLineChar
      let (ending, c) := match c.lineBreak? with
        | none => ([], c)
        | some (x, c) => ([x], c)
      moveTo c
      let pieces := line :: breaks :: pieces
      let breaks ← emptyLines indent [] (fuel + 1)
      let c ← cursor
      if isBlockText indent c then
        let folds := folded && ending == ['\n'] && startsWithText &&
          !c.isAt fun x => x == ' ' || x == '\t'
        let joint := if folds then (if breaks.isEmpty then [' '] else []) else ending
        blockLines folded header indent (joint :: pieces) breaks ending fuel
      else return joined (blockTail header breaks ending ++ pieces)

def blockScalar (folded : Bool) : Scanner Unit := do
  forward 1
  let header ← blockHeader
  skipRestOfLine
  let least := ((← get).indent + 1).toNat
  let least := max least 1
  let fuel := (← cursor).bound
  let (indent, breaks) ← match header.increment with
    | none => do
        let (breaks, deepest) ← leadingBreaks [] 0 fuel
        pure (max least deepest, breaks)
    | some n => do
        let indent := least + n - 1
        let breaks ← emptyLines indent [] fuel
        pure (indent, breaks)
  let text ← blockLines folded header indent [] breaks [] fuel
  emit (.scalar (String.ofList text) false)

/-! ## Quoted scalars -/

def simpleEscapes : List (Char × Char) :=
  [('0', '\x00'), ('a', '\x07'), ('b', '\x08'), ('t', '\t'), ('\t', '\t'), ('n', '\n'),
   ('v', '\x0b'), ('f', '\x0c'), ('r', '\r'), ('e', '\x1b'), (' ', ' '), ('"', '"'),
   ('\\', '\\'), ('/', '/'), ('N', '\x85'), ('_', '\xa0'), ('L', '\u2028'), ('P', '\u2029')]

def codeLength? (c : Char) : Option Nat :=
  if c = 'x' then some 2 else if c = 'u' then some 4 else if c = 'U' then some 8 else none

/-- Empty lines inside quotes; a document border must not stand there. -/
def quotedBreaks (breaks : List Char) : Nat → Scanner (List Char)
  | 0 => return breaks
  | fuel + 1 => do
      require (!(← cursor).seesBorder)
      let c := (← cursor).skip fun x => x == ' ' || x == '\t'
      match c.lineBreak? with
      | none => moveTo c; return breaks
      | some (x, c) => moveTo c; quotedBreaks (breaks ++ [x]) fuel

/-- White space inside quotes; a single line break becomes a blank. -/
def quotedSpaces (fuel : Nat) : Scanner (List Char) := do
  let (run, c) := (← cursor).span fun x => x == ' ' || x == '\t'
  require (!c.rest.isEmpty)
  match c.lineBreak? with
  | none => moveTo c; return run
  | some (x, c) =>
      moveTo c
      let breaks ← quotedBreaks [] fuel
      return (if x != '\n' then [x] else if breaks.isEmpty then [' '] else []) ++ breaks

/-- The number that the next `count` hexadecimal digits write. -/
def hexNumber? (count : Nat) (text : List Char) : Option Nat := do
  let digits := text.take count
  if digits.length < count then none
  let values ← digits.mapM hexValue?
  return values.foldl (fun n d => n * 16 + d) 0

/-- The second half of a pair of sixteen-bit units, if it is written next. -/
def lowUnit? : List Char → Option Nat
  | '\\' :: 'u' :: rest =>
      (hexNumber? 4 rest).filter fun n => decide (0xdc00 ≤ n) && decide (n < 0xe000)
  | _ => none

/-- The character with a code, or with two units; the answer tells how many more were taken. -/
def coded (code : Nat) (rest : List Char) : Result (Char × Nat) :=
  if 0x7fffffff < code then .error (.fault (.overflow .code))
  else if 0x10ffff < code then .error (.fault (.outOfRange "chr() arg not in range(0x110000)"))
  else if 0xd800 ≤ code ∧ code < 0xe000 then
    match lowUnit? rest with
    | some low =>
        if code < 0xdc00 then
          .ok (Char.ofNat (0x10000 + (code - 0xd800) * 0x400 + (low - 0xdc00)), 6)
        else .ok ('\ufffd', 0)
    | none => .ok ('\ufffd', 0)
  else .ok (Char.ofNat code, 0)

def escaped (fuel : Nat) : Scanner (List Char) := do
  forward 1
  let c ← cursor
  match c.peek? 0 with
  | none => fail
  | some x =>
      match simpleEscapes.lookup x, codeLength? x with
      | some y, _ => forward 1; return [y]
      | none, some count =>
          match hexNumber? count (c.rest.drop 1) with
          | none => fail
          | some code =>
              let (found, more) ← ofResult (coded code (c.rest.drop (count + 1)))
              forward (count + 1 + more)
              return [found]
      | none, none =>
          match c.lineBreak? with
          | none => fail
          | some (_, c) => moveTo c; quotedBreaks [] fuel

def isPlainQuoted (c : Char) : Bool :=
  c != '\'' && c != '"' && c != '\\' && !isSpaceOrBreak c

/-- The text up to the closing quote, behind pieces of which the last one comes first. -/
def quotedText (double : Bool) (pieces : List (List Char)) : Nat → Scanner (List Char)
  | 0 => fail
  | fuel + 1 => do
      let (run, c) := (← cursor).span isPlainQuoted
      let pieces := run :: pieces
      moveTo c
      match c.peek? 0 with
      | none => fail
      | some x =>
          if x == (if double then '"' else '\'') then
            if !double && c.peek? 1 == some '\'' then
              forward 2
              quotedText double (['\''] :: pieces) fuel
            else
              forward 1
              return joined pieces
          else if double && x == '\\' then
            let found ← escaped (fuel + 1)
            quotedText double (found :: pieces) fuel
          else if isSpaceOrBreak x then
            let found ← quotedSpaces (fuel + 1)
            quotedText double (found :: pieces) fuel
          else
            forward 1
            quotedText double ([x] :: pieces) fuel

def quotedScalar (double : Bool) : Scanner Unit := do
  forward 1
  let text ← quotedText double [] (← cursor).bound
  emit (.scalar (String.ofList text) false)

/-! ## Plain scalars -/

def isFlowMark (c : Char) : Bool :=
  c == ',' || c == '[' || c == ']' || c == '{' || c == '}'

/-- The longest run that a plain scalar may have on one line up to white space. -/
def plainRun (inFlow : Bool) : List Char → List Char
  | [] => []
  | c :: rest =>
      let endsAtColon := c == ':' && match rest with
        | [] => true
        | next :: _ => isSpaceOrBreak next || (inFlow && isFlowMark next)
      if isSpaceOrBreak c || endsAtColon || (inFlow && (isFlowMark c || c == '?')) then []
      else c :: plainRun inFlow rest

/-- Line breaks between the lines of a plain scalar; none are given at a document border. -/
def plainBreaks (breaks : List Char) : Nat → Scanner (Option (List Char))
  | 0 => return some breaks
  | fuel + 1 => do
      let c := (← cursor).skip (· == ' ')
      match c.lineBreak? with
      | none => moveTo c; return some breaks
      | some (x, c) =>
          moveTo c
          if c.seesBorder then return none else plainBreaks (breaks ++ [x]) fuel

/-- White space behind a run; `none` if the scalar ends there. -/
def plainSpaces (fuel : Nat) : Scanner (Option (List Char)) := do
  let (run, c) := (← cursor).span (· == ' ')
  match c.lineBreak? with
  | none =>
      moveTo c
      return if run.isEmpty then none else some run
  | some (x, c) =>
      moveTo c
      allowKey true
      if c.seesBorder then return none
      match ← plainBreaks [] fuel with
      | none => return none
      | some breaks =>
          return some ((if x != '\n' then [x] else if breaks.isEmpty then [' '] else []) ++
            breaks)

/-- The runs of a plain scalar, behind pieces of which the last one comes first. -/
def plainText (indent : Int) (pieces : List (List Char)) (gap : List Char) :
    Nat → Scanner (List Char)
  | 0 => return joined pieces
  | fuel + 1 => do
      let c ← cursor
      let inFlow ← inFlow
      let run := if c.isAt (· == '#') then [] else plainRun inFlow c.rest
      if run.isEmpty then return joined pieces
      allowKey false
      moveTo (c.steps run.length)
      let pieces := run :: gap :: pieces
      match ← plainSpaces (fuel + 1) with
      | none => return joined pieces
      | some gap =>
          let c ← cursor
          if c.isAt (· == '#') || (!inFlow && decide ((c.column : Int) < indent)) then
            return joined pieces
          else plainText indent pieces gap fuel

def plainScalar : Scanner Unit := do
  let indent := (← get).indent + 1
  let text ← plainText indent [] [] (← cursor).bound
  emit (.scalar (String.ofList text) true)

/-! ## One token after the other -/

def isIndicator (c : Char) : Bool :=
  ['-', '?', ':', ',', '[', ']', '{', '}', '#', '&', '*', '!', '|', '>', '\'', '"', '%', '@',
    '\x60'].contains c

/-- Some indicators start a plain scalar if no white space follows them. -/
def startsPlain (inFlow : Bool) (c : Cursor) : Bool :=
  match c.peek? 0 with
  | none => false
  | some x =>
      (!isSpaceOrBreak x && !isIndicator x) ||
        (!c.endsOr 1 isSpaceOrBreak &&
          (x == '-' || (!inFlow && (x == '?' || x == ':'))))

def beginLine : Scanner Unit := do
  unwind (-1)
  removeKey
  allowKey false

def border (token : Token) : Scanner Unit := do
  beginLine
  forward 3
  emit token

def openFlow (token : Token) : Scanner Unit := do
  saveKey
  modify fun s => { s with flowLevel := s.flowLevel + 1, allowKey := true }
  forward 1
  emit token

def closeFlow (token : Token) : Scanner Unit := do
  removeKey
  require (← inFlow)
  modify fun s => { s with flowLevel := s.flowLevel - 1, allowKey := false }
  forward 1
  emit token

def nextFlow : Scanner Unit := do
  allowKey true
  removeKey
  forward 1
  emit .flowEntry

/-- Opens a block collection at the cursor, where one may be opened. -/
def openBlock (token : Token) : Scanner Unit := do
  let s ← get
  require s.allowKey
  if ← addIndent s.cursor.column then emit token

def nextBlock : Scanner Unit := do
  if !(← inFlow) then openBlock .blockSequenceStart
  allowKey true
  removeKey
  forward 1
  emit .blockEntry

def explicitKey : Scanner Unit := do
  if !(← inFlow) then openBlock .blockMappingStart
  allowKey (!(← inFlow))
  removeKey
  forward 1
  emit .key

/-- At a colon the possible key of the level becomes a key. -/
def mappingValue : Scanner Unit := do
  let s ← get
  match s.keys.lookup s.flowLevel with
  | some key =>
      set { s with keys := s.keys.filter fun entry => entry.1 != s.flowLevel }
      insert key.token .key
      if !(← inFlow) then
        if ← addIndent key.column then insert key.token .blockMappingStart
      allowKey false
  | none =>
      if !(← inFlow) then openBlock .blockMappingStart
      allowKey (!(← inFlow))
      removeKey
  forward 1
  emit .value

def saved (work : Scanner Unit) : Scanner Unit := do
  saveKey
  allowKey false
  work

def unsaved (work : Scanner Unit) : Scanner Unit := do
  allowKey true
  removeKey
  work

/-- The next token; the answer tells whether the text goes on. -/
def next : Scanner Bool := do
  skipToToken (← cursor).bound
  dropStaleKeys
  let c ← cursor
  unwind c.column
  let inFlow ← inFlow
  let spaced := c.endsOr 1 isSpaceOrBreak
  match c.peek? 0 with
  | none =>
      beginLine
      emit .streamEnd
      return false
  | some x =>
      let atBorder := c.column == 0 && c.seesBorder
      if x == '%' && c.column == 0 then do beginLine; directive
      else if x == '-' && atBorder then border .documentStart
      else if x == '.' && atBorder then border .documentEnd
      else if x == '[' then openFlow .flowSequenceStart
      else if x == '{' then openFlow .flowMappingStart
      else if x == ']' then closeFlow .flowSequenceEnd
      else if x == '}' then closeFlow .flowMappingEnd
      else if x == ',' then nextFlow
      else if x == '-' && spaced then nextBlock
      else if x == '?' && (inFlow || spaced) then explicitKey
      else if x == ':' && (inFlow || spaced) then mappingValue
      else if x == '*' then saved (do emit (.alias (← anchorName)))
      else if x == '&' then saved (do emit (.anchor (← anchorName)))
      else if x == '!' then saved tag
      else if x == '|' && !inFlow then unsaved (blockScalar false)
      else if x == '>' && !inFlow then unsaved (blockScalar true)
      else if x == '\'' then saved (quotedScalar false)
      else if x == '"' then saved (quotedScalar true)
      else if startsPlain inFlow c then saved plainScalar
      else fail
      return true

/-- The tokens that can no longer change. -/
def certain (s : Scan) : List Token :=
  let keys := (s.keys.map (·.2)).filter fun key => !isStale s.cursor key
  let known := (keys.map (·.token)).foldl min s.count
  (s.emitted.drop (s.count - known)).reverse

end Scanner

/-- The certain tokens of a text; without trouble, the last of them is its end. -/
structure Scanned where
  tokens : List Token
  trouble : Option Trouble

namespace Scanned

/-- A step that comes to the end of what can be read is not taken. -/
def reaches (source : Source) (s : Scan) : Option Trouble :=
  if s.cursor.size ≤ s.cursor.index then source.stop else none

def scanFrom (source : Source) (s : Scan) : Nat → Scanned
  | 0 => ⟨s.emitted.reverse, some .malformed⟩
  | steps + 1 =>
      match Scanner.next.run s with
      | (result, after) =>
          match reaches source after, result with
          | some trouble, _ => ⟨Scanner.certain s, some trouble⟩
          | none, .error trouble => ⟨Scanner.certain s, some trouble⟩
          | none, .ok true => scanFrom source after steps
          | none, .ok false => ⟨after.emitted.reverse, none⟩

end Scanned

/-- A mark of the byte order in front of a text is passed over. -/
def Token.scan (source : Source) : Scanned :=
  let start := Cursor.start source.text
  let start := if source.text.head? == some '\ufeff' then start.step else start
  .scanFrom source ⟨start, [], 0, 0, -1, [], true, []⟩ (source.text.length + 2)

end Playbook.Yaml
