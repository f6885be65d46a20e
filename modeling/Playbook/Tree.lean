import Playbook.Path
import Playbook.Yaml.Document

/-!
# File trees

A tree is what a file system holds below its root. The content of a file is
text, bytes, or a document that is kept as its value. `look` follows a path
name by name, so a name in front of `..` has to lead to a directory.
-/

namespace Playbook

inductive Content where
  | text (s : String)
  | bytes (data : List UInt8)
  | document (v : Value)
deriving Inhabited

structure File where
  content : Content
  executable : Bool
deriving Inhabited

inductive Tree where
  | file (f : File)
  | directory (children : List (String × Tree))
deriving Inhabited

namespace Content

/-- The text of a file; a document that is kept as a value has none. -/
def text? : Content → Attempt (Option String)
  | .text s => .ok (some (String.ofList (Text.plainLineEnds s.toList)))
  | .bytes data =>
      match Text.decoded? data with
      | some chars => .ok (some (String.ofList (Text.plainLineEnds chars)))
      | none => .error .undecodable
  | .document _ => .ok none

/-- The value that a file holds; the mark tells the odd numbers of one reading from others. -/
def value (mark : String) : Content → Yaml.Result Value
  | .document v => .ok v
  | .text s => Yaml.read mark (Yaml.Source.ofText s)
  | .bytes data => Yaml.read mark (Yaml.Source.ofBytes data)

end Content

namespace Tree

def empty : Tree := .directory []

def children : Tree → List (String × Tree)
  | .file _ => []
  | .directory entries => entries

/-! ## Looking up -/

/-- The most bytes that a name may have. -/
def nameLimit : Nat := 255

/-- The most bytes that a path may have. -/
def pathLimit : Nat := 4095

/--
Follows names from a tree on. `above` holds the directories around it, the
nearest first, to which `..` leads back; the outermost one is above itself.
-/
def follow (above : List Tree) (tree : Tree) : List String → Except FileTrouble Tree
  | [] => .ok tree
  | name :: names =>
      match tree with
      | .file _ => .error .notDirectory
      | .directory entries =>
          if name = ".." then
            match above with
            | [] => follow [] tree names
            | parent :: others => follow others parent names
          else if nameLimit < name.utf8ByteSize then .error .nameTooLong
          else
            match entries.lookup name with
            | some child => follow (tree :: above) child names
            | none => .error .missing

/-- What is at a path. -/
def look (tree : Tree) (path : Path) : Except FileTrouble Tree :=
  if pathLimit < path.text.utf8ByteSize then .error .nameTooLong
  else tree.follow [] path.names

/-- What is at a path, if anything is; a name that is too long cannot even be asked for. -/
def ask (tree : Tree) (path : Path) : Attempt (Option Tree) :=
  if path.holdsZero then .ok none
  else
    match tree.look path with
    | .ok found => .ok (some found)
    | .error .nameTooLong => .error (.file .nameTooLong path.text)
    | .error _ => .ok none

def exists? (tree : Tree) (path : Path) : Attempt Bool := do
  return (← tree.ask path).isSome

def isFile (tree : Tree) (path : Path) : Attempt Bool := do
  match ← tree.ask path with
  | some (.file _) => return true
  | _ => return false

def isDirectory (tree : Tree) (path : Path) : Attempt Bool := do
  match ← tree.ask path with
  | some (.directory _) => return true
  | _ => return false

/-- The file at a path. -/
def open? (tree : Tree) (path : Path) : Attempt (Except FileTrouble File) :=
  if path.holdsZero then .error .zeroInPath
  else
    match tree.look path with
    | .ok (.file f) => .ok (.ok f)
    | .ok (.directory _) => .ok (.error .isDirectory)
    | .error trouble => .ok (.error trouble)

/-- What a directory holds; nothing where there is none. -/
def entriesAt (tree : Tree) (path : Path) : Attempt (List (String × Tree)) := do
  match ← tree.ask path with
  | some (.directory entries) => return entries
  | _ => return []

def isBranch : Tree → Bool
  | .file _ => false
  | .directory _ => true

/-- The directories right below a directory, in order. -/
def subdirectories (tree : Tree) (path : Path) : Attempt (List Path) := do
  let entries ← tree.entriesAt path
  return Path.sort ((entries.filter (·.2.isBranch)).map fun entry =>
    { path with names := path.names ++ [entry.1] })

mutual

/-- The names that lead to each file below a tree. -/
def files : Tree → List (List String)
  | .file _ => [[]]
  | .directory entries => filesOf entries

def filesOf : List (String × Tree) → List (List String)
  | [] => []
  | (name, child) :: rest => (files child).map (name :: ·) ++ filesOf rest

end

/-- The files below a directory, as names from it on. -/
def filesBelow (tree : Tree) (path : Path) : Attempt (List (List String)) := do
  return filesOf (← tree.entriesAt path)

/-! ## Changing -/

def put (name : String) (child : Tree) : List (String × Tree) → List (String × Tree)
  | [] => [(name, child)]
  | entry :: rest =>
      if entry.1 = name then (name, child) :: rest else entry :: put name child rest

/-- A tree in the place of another: a file stays executable, and a directory is not emptied. -/
def covering : Tree → Tree → Tree
  | .file new, .file old => .file { new with executable := new.executable || old.executable }
  | .directory [], .directory entries => .directory entries
  | new, _ => new

/-- Puts a tree at a place and makes the directories on the way; files on the way give way. -/
def insert (tree new : Tree) : List String → Tree
  | [] => new.covering tree
  | name :: names =>
      let entries := tree.children
      let child := (entries.lookup name).getD empty
      .directory (put name (insert child new names) entries)

def erase (tree : Tree) : List String → Tree
  | [] => empty
  | [name] => .directory (tree.children.filter fun entry => entry.1 != name)
  | name :: names =>
      match tree.children.lookup name with
      | some child => .directory (put name (child.erase names) tree.children)
      | none => tree

/-- The names of a path from the root, with `..` taken away. -/
def place (path : Path) : List String := Path.resolveFrom [] path.names

def insertAt (tree : Tree) (path : Path) (new : Tree) : Tree := tree.insert new (place path)

def eraseAt (tree : Tree) (path : Path) : Tree := tree.erase (place path)

/-- Makes one directory, where nothing is and where the one above it is there. -/
def makeDirectory (tree : Tree) (path : Path) : Except FileTrouble Tree :=
  match tree.look path with
  | .ok _ => .error .exists
  | .error .missing => (tree.look path.parent).map fun _ => tree.insertAt path empty
  | .error trouble => .error trouble

/-- A directory that could not be made is no trouble if it is there. -/
def settled (tree : Tree) (current path : Path) (trouble : FileTrouble) : Attempt Unit :=
  match tree.look (current.append path) with
  | .ok (.directory _) => .ok ()
  | _ => .error (.file trouble path.text)

/--
Makes a directory and those above it that are missing. `current` is the
directory from which a path without a root counts. What has been made stays
when the work is given up.
-/
def makeDirectories (tree : Tree) (current path : Path) : Tree × Attempt Unit :=
  match tree.makeDirectory (current.append path) with
  | .ok made => (made, .ok ())
  | .error .missing =>
      if _ : path.names = [] then (tree, .error (.file .missing path.text))
      else
        match makeDirectories tree current path.parent with
        | (made, .error fault) => (made, .error fault)
        | (made, .ok ()) =>
            match made.makeDirectory (current.append path) with
            | .ok made => (made, .ok ())
            | .error trouble => (made, made.settled current path trouble)
  | .error trouble => (tree, tree.settled current path trouble)
termination_by path.names.length
decreasing_by
  have := List.length_pos_iff.2 ‹path.names ≠ []›
  simp only [Path.parent, List.length_dropLast]
  omega

/-- Writes an executable text file over what is there. -/
def putScript (tree : Tree) (current path : Path) (text : String) : Attempt Tree :=
  let full := current.append path
  if path.holdsZero then .error .zeroInPath
  else
    match tree.look full with
    | .ok (.directory _) => .error (.file .isDirectory path.text)
    | .ok (.file _) | .error .missing => .ok (tree.insertAt full (.file ⟨.text text, true⟩))
    | .error trouble => .error (.file trouble path.text)

/-- Writes an executable text file and makes the directories above it. -/
def writeScript (tree : Tree) (current path : Path) (text : String) : Tree × Attempt Unit :=
  if path.parent.holdsZero then (tree, .error .zeroInPath)
  else
    match tree.makeDirectories current path.parent with
    | (made, .error fault) => (made, .error fault)
    | (made, .ok ()) =>
        match made.putScript current path text with
        | .ok written => (written, .ok ())
        | .error fault => (made, .error fault)

/-! ## Documents in files -/

/-- Why a file gives no value. -/
inductive DocumentTrouble where
  | file (trouble : FileTrouble)
  | malformed

namespace DocumentTrouble

def malformedText : String := "<yaml error>"

def text (path : Path) : DocumentTrouble → String
  | .file trouble => trouble.message path.text
  | .malformed => malformedText

end DocumentTrouble

/-- The value in a file; a fault in a scalar of it is not among the usual troubles. -/
def document (tree : Tree) (path : Path) : Attempt (Except DocumentTrouble Value) := do
  match ← tree.open? path with
  | .error trouble => return .error (.file trouble)
  | .ok f =>
      match f.content.value path.text with
      | .ok v => return .ok v
      | .error .malformed => return .error .malformed
      | .error (.fault fault) => throw fault

end Tree

end Playbook
