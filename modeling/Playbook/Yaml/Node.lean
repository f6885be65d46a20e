import Playbook.Yaml.Scalar
import Playbook.Yaml.Token

/-!
# Nodes of a YAML text

`NodeTable.ofTokens` reads the one document that a token list may hold into a
table of nodes, in which nodes refer to each other by number. An alias is the
number of the node with its anchor, which may be a node around it. Where the
tokens run out before the document ends, the trouble behind them is met.
-/

namespace Playbook.Yaml

inductive Node where
  | scalar (tag text : String)
  | sequence (tag : String) (items : List Nat)
  | mapping (tag : String) (entries : List (Nat × Nat))
deriving Inhabited

abbrev NodeTable := Array Node

def standardTag (name : String) : String := "tag:yaml.org,2002:" ++ name

structure Reading where
  tokens : List Token
  behind : Trouble
  handles : List (String × String)
  anchors : List (String × Nat)
  nodes : NodeTable

abbrev Reader := StateT Reading Result

namespace Reader

def fail : Reader α := throw .malformed

def peek : Reader Token := do
  let s ← get
  match s.tokens with
  | [] => throw s.behind
  | token :: _ => return token

def advance : Reader Unit := modify fun s => { s with tokens := s.tokens.drop 1 }

/-- Whether the next token is one of some tokens without content. -/
def sees (tokens : List Token) : Reader Bool := return tokens.contains (← peek)

/-- Takes a token if it is the next one. -/
def took (token : Token) : Reader Bool := do
  if ← sees [token] then
    advance
    return true
  else return false

def expect (token : Token) : Reader Unit := do if !(← took token) then fail

/-! ## Nodes -/

def newNode (node : Node) : Reader Nat :=
  modifyGet fun s => (s.nodes.size, { s with nodes := s.nodes.push node })

def setNode (number : Nat) (node : Node) : Reader Unit :=
  modify fun s => { s with nodes := s.nodes.setIfInBounds number node }

/-- The tag that the text of a scalar stands for where none is given. -/
def tagOf (text : String) : String :=
  standardTag (match Scalar.kind text with
    | .truth => "bool"
    | .float => "float"
    | .int => "int"
    | .merge => "merge"
    | .null => "null"
    | .timestamp => "timestamp"
    | .equals => "value"
    | .text => "str")

/-- A tag that is a lone mark leaves the meaning of a scalar to its text. -/
def scalarNode (tag : Option String) (text : String) (plain : Bool) : Node :=
  match tag with
  | some name => .scalar (if name = "!" then tagOf text else name) text
  | none => .scalar (if plain then tagOf text else standardTag "str") text

def collectionTag (tag : Option String) (usual : String) : String :=
  match tag with
  | some name => if name = "!" then standardTag usual else name
  | none => standardTag usual

def emptyScalar : Reader Nat := newNode (scalarNode none "" true)

/-! ## Anchors and tags -/

structure Properties where
  anchor : Option String
  tag : Option String

def anchor? : Reader (Option String) := do
  match ← peek with
  | .anchor name =>
      advance
      return some name
  | _ => return none

def tagToken? : Reader (Option (Option String × String)) := do
  match ← peek with
  | .tag handle suffix =>
      advance
      return some (handle, suffix)
  | _ => return none

/-- The tag that a handle and a suffix stand for. -/
def tagName? (tag : Option (Option String × String)) : Reader (Option String) := do
  match tag with
  | none => return none
  | some (none, suffix) => return some suffix
  | some (some handle, suffix) =>
      match (← get).handles.lookup handle with
      | none => fail
      | some beginning => return some (beginning ++ suffix)

/-- Anchor and tag, in any order. -/
def properties : Reader Properties := do
  let first ← anchor?
  let tag ← tagToken?
  let anchor ← if first.isNone && tag.isSome then anchor? else pure first
  let properties : Properties := ⟨anchor, ← tagName? tag⟩
  let _ ← peek
  return properties

def define (anchor : Option String) (number : Nat) : Reader Unit := do
  match anchor with
  | none => pure ()
  | some name => modify fun s => { s with anchors := (name, number) :: s.anchors }

/-- An anchor names one node of a document. -/
def checkAnchor (anchor : Option String) : Reader Unit := do
  match anchor with
  | none => pure ()
  | some name => if ((← get).anchors.lookup name).isSome then fail

/-! ## Content -/

/-- Where a node stands, and which collections may start there. -/
inductive Place where
  | flow
  | block
  | blockOrEntries
deriving DecidableEq

def blockPlace (place : Place) : Bool := place != .flow

/-- A scalar, whose anchor is known behind it. -/
def addScalar (found : Properties) (text : String) (plain : Bool) : Reader Nat := do
  checkAnchor found.anchor
  let number ← newNode (scalarNode found.tag text plain)
  define found.anchor number
  return number

/-- Properties alone make an empty scalar. -/
def orEmpty (found : Properties) : Reader Nat := do
  if found.anchor.isNone && found.tag.isNone then fail
  addScalar found "" found.tag.isNone

/-- A sequence, whose anchor is known inside of it. -/
def addSequence (found : Properties) (items : Reader (List Nat)) : Reader Nat := do
  checkAnchor found.anchor
  let tag := collectionTag found.tag "seq"
  let number ← newNode (.sequence tag [])
  define found.anchor number
  setNode number (.sequence tag (← items))
  return number

def addMapping (found : Properties) (entries : Reader (List (Nat × Nat))) : Reader Nat := do
  checkAnchor found.anchor
  let tag := collectionTag found.tag "map"
  let number ← newNode (.mapping tag [])
  define found.anchor number
  setNode number (.mapping tag (← entries))
  return number

mutual

def node (place : Place) : Nat → Reader Nat
  | 0 => fail
  | fuel + 1 => do
      match ← peek with
      | .alias name =>
          advance
          match (← get).anchors.lookup name with
          | some found => return found
          | none => fail
      | _ => content place (← properties) fuel

def content (place : Place) (found : Properties) : Nat → Reader Nat
  | 0 => fail
  | fuel + 1 => do
      match ← peek with
      | .scalar text plain =>
          advance
          addScalar found text (plain && found.tag.isNone)
      | .flowSequenceStart => addSequence found do
          advance
          flowItems true fuel
      | .flowMappingStart => addMapping found do
          advance
          flowEntries true fuel
      | .blockSequenceStart =>
          if blockPlace place then addSequence found do
            advance
            let items ← blockItems fuel
            expect .blockEnd
            return items
          else orEmpty found
      | .blockMappingStart =>
          if blockPlace place then addMapping found do
            advance
            let entries ← blockEntries fuel
            expect .blockEnd
            return entries
          else orEmpty found
      | .blockEntry =>
          if place = .blockOrEntries then addSequence found (entryItems fuel)
          else orEmpty found
      | _ => orEmpty found

def blockItems : Nat → Reader (List Nat)
  | 0 => fail
  | fuel + 1 => do
      if !(← took .blockEntry) then return []
      let item ← if ← sees [.blockEntry, .blockEnd] then emptyScalar else node .block fuel
      return item :: (← blockItems fuel)

/-- Items at the indentation of the mapping around them. -/
def entryItems : Nat → Reader (List Nat)
  | 0 => fail
  | fuel + 1 => do
      if !(← took .blockEntry) then return []
      let item ←
        if ← sees [.blockEntry, .key, .value, .blockEnd] then emptyScalar else node .block fuel
      return item :: (← entryItems fuel)

def blockEntries : Nat → Reader (List (Nat × Nat))
  | 0 => fail
  | fuel + 1 => do
      if !(← took .key) then return []
      let key ←
        if ← sees [.key, .value, .blockEnd] then emptyScalar else node .blockOrEntries fuel
      let value ←
        if ← took .value then
          if ← sees [.key, .value, .blockEnd] then emptyScalar else node .blockOrEntries fuel
        else emptyScalar
      return (key, value) :: (← blockEntries fuel)

def flowValue (ends : List Token) : Nat → Reader Nat
  | 0 => fail
  | fuel + 1 => do
      if ← took .value then
        if ← sees ends then emptyScalar else node .flow fuel
      else emptyScalar

/-- A key in a flow sequence makes a mapping of one entry. -/
def flowItems (first : Bool) : Nat → Reader (List Nat)
  | 0 => fail
  | fuel + 1 => do
      if ← took .flowSequenceEnd then return []
      if !first then expect .flowEntry
      if ← took .key then
        let item ← addMapping ⟨none, none⟩ do
          let key ←
            if ← sees [.value, .flowEntry, .flowSequenceEnd] then emptyScalar
            else node .flow fuel
          return [(key, ← flowValue [.flowEntry, .flowSequenceEnd] fuel)]
        return item :: (← flowItems false fuel)
      else if ← took .flowSequenceEnd then return []
      else
        let item ← node .flow fuel
        return item :: (← flowItems false fuel)

def flowEntries (first : Bool) : Nat → Reader (List (Nat × Nat))
  | 0 => fail
  | fuel + 1 => do
      if ← took .flowMappingEnd then return []
      if !first then expect .flowEntry
      if ← took .key then
        let key ←
          if ← sees [.value, .flowEntry, .flowMappingEnd] then emptyScalar
          else node .flow fuel
        let value ← flowValue [.flowEntry, .flowMappingEnd] fuel
        return (key, value) :: (← flowEntries false fuel)
      else if ← took .flowMappingEnd then return []
      else
        let key ← node .flow fuel
        return (key, ← emptyScalar) :: (← flowEntries false fuel)

end

/-! ## Documents -/

def defaultHandles : List (String × String) := [("!", "!"), ("!!", standardTag "")]

/-- Directives in front of a document: at most one version, each handle once. -/
def directives (versions : Nat) : Nat → Reader Unit
  | 0 => fail
  | fuel + 1 => do
      match ← peek with
      | .version major =>
          if major != 1 || versions != 0 then fail
          advance
          directives 1 fuel
      | .tagHandle handle beginning =>
          advance
          let s ← get
          let own := s.handles.take (s.handles.length - defaultHandles.length)
          if (own.lookup handle).isSome then fail
          set { s with handles := (handle, beginning) :: s.handles }
          directives versions fuel
      | .otherDirective =>
          advance
          directives versions fuel
      | _ => pure ()

def skipDocumentEnds : Nat → Reader Unit
  | 0 => pure ()
  | fuel + 1 => do if ← took .documentEnd then skipDocumentEnds fuel

def isDirective : Token → Bool
  | .version _ | .tagHandle .. | .otherDirective => true
  | _ => false

/-- The marks in front of a document; the answer tells whether there is one. -/
def documentStart (fuel : Nat) : Reader Bool := do
  skipDocumentEnds fuel
  if ← sees [.streamEnd] then return false
  modify fun s => { s with handles := defaultHandles }
  directives 0 fuel
  expect .documentStart
  return true

/-- A document behind its start mark. -/
def markedContent (fuel : Nat) : Reader Nat := do
  if isDirective (← peek) || (← sees [.documentStart, .documentEnd, .streamEnd]) then emptyScalar
  else node .block fuel

/-- A document behind its marks, if there is one. -/
def marked? (fuel : Nat) : Reader (Option Nat) := do
  if ← documentStart fuel then some <$> markedContent fuel else return none

/-- The first document; its start may go without a mark. -/
def first? (fuel : Nat) : Reader (Option Nat) := do
  let marked := isDirective (← peek) || (← sees [.documentStart, .streamEnd])
  if marked then marked? fuel else some <$> node .block fuel

/-- The one document of a text; a text without a document has none. -/
def document (fuel : Nat) : Reader (Option Nat) := do
  let found ← first? fuel
  if found.isNone then return none
  if ← documentStart fuel then fail
  return found

end Reader

/-- The table of nodes of a document with the number of its outermost node. -/
def NodeTable.ofTokens (scanned : Scanned) : Result (Option (NodeTable × Nat)) :=
  let tokens := scanned.tokens
  let start : Reading :=
    ⟨tokens, scanned.trouble.getD .malformed, Reader.defaultHandles, [], #[]⟩
  match (Reader.document (3 * tokens.length + 10)).run start with
  | .ok (found, s) => .ok (found.map fun number => (s.nodes, number))
  | .error trouble => .error trouble

end Playbook.Yaml
