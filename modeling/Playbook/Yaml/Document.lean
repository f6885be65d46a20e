import Playbook.Value.Arrangement
import Playbook.Yaml.Merge
import Playbook.Yaml.Scalar

/-!
# Values of YAML documents

`read` gives the value of a document. A node becomes a value by its tag. A
container is made empty at first and filled in its turn, after all that was
made before it; the first trouble in this order is that of the document. A
node that is used twice is one value, so a container may come to hold itself.
-/

namespace Playbook.Yaml

def lift (result : Attempt α) : Result α :=
  match result with
  | .ok a => .ok a
  | .error fault => .error (.fault fault)

/-! ## Binary data -/

def base64Value? (c : Char) : Option Nat :=
  if 'A' ≤ c ∧ c ≤ 'Z' then some (c.toNat - 'A'.toNat)
  else if 'a' ≤ c ∧ c ≤ 'z' then some (c.toNat - 'a'.toNat + 26)
  else if '0' ≤ c ∧ c ≤ '9' then some (c.toNat - '0'.toNat + 52)
  else if c = '+' then some 62
  else if c = '/' then some 63
  else none

/--
Bytes of base 64 text. Other characters are passed over; `place` counts the
characters of a group of four, `left` holds the bits not used so far.
-/
def base64? (place left pads : Nat) : List Char → Option (List UInt8)
  | [] => if place = 0 then some [] else none
  | '=' :: rest =>
      if 2 ≤ place ∧ 4 ≤ place + pads + 1 then some []
      else base64? place left (if 2 ≤ place then pads + 1 else pads) rest
  | c :: rest =>
      match base64Value? c with
      | none => base64? place left pads rest
      | some v =>
          match place with
          | 0 => base64? 1 v 0 rest
          | 1 => (base64? 2 (v % 16) 0 rest).map ((left * 4 + v / 16).toUInt8 :: ·)
          | 2 => (base64? 3 (v % 4) 0 rest).map ((left * 16 + v / 4).toUInt8 :: ·)
          | _ => (base64? 0 0 0 rest).map ((left * 64 + v).toUInt8 :: ·)

def readBinary (text : String) : Result Value :=
  if text.toList.any fun c => decide (127 < c.toNat) then .error .malformed
  else match base64? 0 0 0 text.toList with
    | some data => .ok (.bytes data)
    | none => .error .malformed

/-! ## Scalars -/

/-- The text of a scalar; a mapping stands for the value of its equals sign. -/
def scalarText (nodes : NodeTable) : Nat → Nat → Result String
  | 0, _ => .error .malformed
  | steps + 1, number =>
      match nodes[number]? with
      | some (.scalar _ text) => .ok text
      | some (.mapping _ entries) =>
          match entries.find? fun e => nodes.tag e.1 == standardTag "value" with
          | some entry => scalarText nodes steps entry.2
          | none => .error .malformed
      | _ => .error .malformed

def isScalar (nodes : NodeTable) (number : Nat) : Bool :=
  match nodes[number]? with
  | some (.scalar ..) => true
  | _ => false

/-- The value of a node with the tag of a scalar; `mark` is for a number that is none. -/
def scalarValue (nodes : NodeTable) (mark : String) (number : Nat) : Result Value := do
  let tag := nodes.tag number
  let text := scalarText nodes (nodes.size + 1) number
  if tag = standardTag "str" then return .text (← text)
  else if tag = standardTag "null" then
    let _ ← text
    return .null
  else if tag = standardTag "bool" then lift (Scalar.readTruth (← text))
  else if tag = standardTag "int" then lift (Scalar.readInt (← text))
  else if tag = standardTag "float" then lift (Scalar.readFloat mark (← text))
  else if tag = standardTag "timestamp" then
    let stamp ← text
    if isScalar nodes number then lift (Scalar.readTimestamp stamp)
    else throw (.fault .wrongType)
  else if tag = standardTag "binary" then readBinary (← text)
  else throw .malformed

/-! ## Containers -/

/-- What is made of a node: a value that is complete, or the container with a number. -/
inductive Part where
  | complete (v : Value)
  | container (number : Nat)

inductive Container where
  | list (items : List Part)
  | tuple (items : List Part)
  | set (members : List Value)
  | mapping (entries : List (Value × Part))
deriving Inhabited

inductive ContainerKind where
  | list
  | pairs
  | set
  | mapping
deriving DecidableEq, Repr

namespace ContainerKind

def ofTag? (tag : String) : Option ContainerKind :=
  if tag = standardTag "seq" then some .list
  else if tag = standardTag "omap" ∨ tag = standardTag "pairs" then some .pairs
  else if tag = standardTag "set" then some .set
  else if tag = standardTag "map" then some .mapping
  else none

def start : ContainerKind → Container
  | .list | .pairs => .list []
  | .set => .set []
  | .mapping => .mapping []

end ContainerKind

/-- A container that is to be filled from a node. -/
structure Filling where
  container : Nat
  kind : ContainerKind
  node : Nat

structure Assembly where
  nodes : NodeTable
  parts : Array (Option Part)
  containers : Array Container
  /-- All containers in the order in which they are filled. -/
  fillings : Array Filling

abbrev Assembler := StateT Assembly Result

namespace Assembler

def addContainer (container : Container) : Assembler Nat := do
  let s ← get
  set { s with containers := s.containers.push container }
  return s.containers.size

def setContainer (number : Nat) (container : Container) : Assembler Unit :=
  modify fun s => { s with containers := s.containers.setIfInBounds number container }

def ofResult (result : Result α) : Assembler α := StateT.lift result

/-- What a node is made into, once for each node; a new container waits to be filled. -/
def part (mark : String) (node : Nat) : Assembler Part := do
  let s ← get
  match s.parts[node]? with
  | some (some found) => return found
  | _ =>
      let made ← match ContainerKind.ofTag? (s.nodes.tag node) with
        | some kind => do
            let number ← addContainer kind.start
            modify fun s => { s with fillings := s.fillings.push ⟨number, kind, node⟩ }
            pure (.container number)
        | none =>
            let own := mark ++ "#" ++ toString node
            .complete <$> ofResult (scalarValue s.nodes own node)
      modify fun s => { s with parts := s.parts.setIfInBounds node (some made) }
      return made

/-- A later value of a key takes the place of the earlier one. -/
def insertPart (entries : List (Value × Part)) (key : Value) (part : Part) :
    List (Value × Part) :=
  match entries with
  | [] => [(key, part)]
  | e :: rest =>
      if e.1.same key then (e.1, part) :: rest else e :: insertPart rest key part

/-- A key is complete from the start, so no container can be one. -/
def keyPart (mark : String) (node : Nat) : Assembler Value := do
  match ← part mark node with
  | .complete key => return key
  | .container _ => throw .malformed

def listItems (mark : String) (node : Nat) : Assembler (List Part) := do
  match (← get).nodes[node]? with
  | some (.sequence _ items) => items.mapM (part mark)
  | _ => throw .malformed

/-- The entries of a mapping and of those that it merges. -/
def mappingEntries (mark : String) (node : Nat) : Assembler (List (Value × Part)) := do
  let nodes ← ofResult ((← get).nodes.flatten node)
  modify fun s => { s with nodes }
  ((nodes.entries? node).getD []).foldlM (fun entries entry => do
    let key ← keyPart mark entry.1
    return insertPart entries key (← part mark entry.2)) []

/-- The one entry of a mapping as a pair; its key may be a container. -/
def pairItem (mark : String) (node : Nat) : Assembler Part := do
  match (← get).nodes[node]? with
  | some (.mapping _ [(key, value)]) =>
      let first ← part mark key
      let second ← part mark value
      return .container (← addContainer (.tuple [first, second]))
  | _ => throw .malformed

def pairItems (mark : String) (node : Nat) : Assembler (List Part) := do
  match (← get).nodes[node]? with
  | some (.sequence _ items) => items.mapM (pairItem mark)
  | _ => throw .malformed

def fill (mark : String) (filling : Filling) : Assembler Unit := do
  let content ← match filling.kind with
    | .list => .list <$> listItems mark filling.node
    | .pairs => .list <$> pairItems mark filling.node
    | .set => do
        let entries ← mappingEntries mark filling.node
        pure (.set (Value.arranged (entries.map (·.1))))
    | .mapping => .mapping <$> mappingEntries mark filling.node
  setContainer filling.container content

/-- Fills the containers from a place on; each node adds one at most. -/
def fillFrom (mark : String) (place : Nat) : Nat → Assembler Unit
  | 0 => pure ()
  | steps + 1 => do
      match (← get).fillings[place]? with
      | none => pure ()
      | some filling =>
          fill mark filling
          fillFrom mark (place + 1) steps

end Assembler

/-! ## Values of containers -/

/-- The values of the containers that are not on a way round, as far as they are known. -/
abbrev Finished := Array (Option Value)

/-- A value with the numbers of the containers around it that it mentions. -/
structure Mentioning where
  value : Value
  mentioned : List Nat

/-- A container on a way round mentions itself or one around it, and is a `cycle`. -/
def closed (number : Nat) (content : Value) (mentioned : List Nat) :
    StateM Finished Mentioning := do
  if mentioned.isEmpty then
    modify fun finished => finished.setIfInBounds number (some content)
    return ⟨content, []⟩
  else return ⟨.cycle number content, mentioned.filter (· != number)⟩

/-- `around` holds the containers around, which are all different; `steps` bounds their number. -/
def valueOf (containers : Array Container) (around : List Nat) :
    Nat → Part → StateM Finished Mentioning
  | _, .complete v => return ⟨v, []⟩
  | 0, .container number => return ⟨.again number, [number]⟩
  | steps + 1, .container number => do
      if around.contains number then return ⟨.again number, [number]⟩
      match (← get)[number]? with
      | some (some v) => return ⟨v, []⟩
      | _ =>
          let inside := valueOf containers (number :: around) steps
          match containers[number]? with
          | some (.list items) =>
              let found ← items.mapM inside
              closed number (.list (found.map (·.value))) (found.flatMap (·.mentioned))
          | some (.tuple items) =>
              let found ← items.mapM inside
              closed number (.tuple (found.map (·.value))) (found.flatMap (·.mentioned))
          | some (.mapping entries) =>
              let found ← entries.mapM fun e => do return (e.1, ← inside e.2)
              closed number (.mapping (found.map fun e => (e.1, e.2.value)))
                (found.flatMap (·.2.mentioned))
          | some (.set members) => closed number (.set members) []
          | none => return ⟨.null, []⟩

/-- The value of the outermost node of a table. -/
def NodeTable.value (nodes : NodeTable) (mark : String) (outermost : Nat) : Result Value := do
  let start : Assembly := ⟨nodes, Array.replicate nodes.size none, #[], #[]⟩
  let (part, s) ← (do
    let part ← Assembler.part mark outermost
    Assembler.fillFrom mark 0 (nodes.size + 1)
    return part : Assembler Part).run start
  let containers := s.containers
  let (found, _) := (valueOf containers [] (containers.size + 1) part).run
    (Array.replicate containers.size none)
  return found.value

/--
The value of a text with one document; a text without a document is `null`.
`mark` tells its numbers that are none from those of other texts.
-/
def read (mark : String) (source : Source) : Result Value := do
  match ← NodeTable.ofTokens (Token.scan source) with
  | none => return .null
  | some (nodes, outermost) => nodes.value mark outermost

end Playbook.Yaml
