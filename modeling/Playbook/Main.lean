import Playbook.CommandLine.Execution
import Std.Time.DateTime.Timestamp

/-!
# The program

Reads the files of the repository, runs the command on them, and writes the
scripts that it leaves.
-/

namespace Playbook.Main

def isDirectory (place : String) : IO Bool := do
  try return ← (← IO.FS.realPath place).isDir
  catch _ => return false

/-- Files that are no manifests count by their names alone. -/
def readContent (place : String) : IO Content := do
  if Manifests.suffixes.contains (Path.ofText place).suffix then
    return .bytes (← IO.FS.readBinFile place).toList
  return .bytes []

partial def readTree (place : String) : IO Tree := do
  let real ← IO.FS.realPath place
  if ← real.isDir then
    let entries ← real.readDir
    let children ← entries.toList.mapM fun entry => do
      return (entry.fileName, ← readTree entry.path.toString)
    return .directory children
  return .file ⟨← readContent place, false⟩

/-- The directories that mark a repository, at the current directory and above it. -/
def readMarkers (current : Path) : IO Tree := do
  let places := current.upward.flatMap fun directory =>
    Settings.rootMarkers.map directory.child
  places.foldlM (fun tree place => do
    if !(← isDirectory place.text) then return tree
    return tree.insertAt place .empty) Tree.empty

/-- Writes the scripts of a tree to their places. -/
def saveScripts (tree : Tree) : IO Unit := do
  let all : IO.AccessRight := { read := true, write := true, execution := true }
  let others : IO.AccessRight := { read := true, write := false, execution := true }
  for names in tree.files do
    let path : Path := ⟨.root, names⟩
    match tree.open? path with
    | .ok (.ok ⟨.text text, true⟩) =>
        IO.FS.createDirAll path.parent.text
        IO.FS.writeFile path.text text
        IO.setAccessRights path.text { user := all, group := others, other := others }
    | _ => pure ()

def now : IO String := do
  let stamp ← Std.Time.Timestamp.now
  return (Instant.ofEpoch (stamp.toNanosecondsSinceUnixEpoch.val.toNat / 1000)).text

/-- The workspace with the files of the repository that the words are about. -/
def openWorkspace (words : List String) : IO Workspace := do
  let current := Path.ofText (← IO.currentDir).toString
  let environment : Environment := {
    root := ← IO.getEnv Settings.rootVariable
    outputDir := ← IO.getEnv Settings.outputVariable }
  let bare : Workspace := ⟨← readMarkers current, environment, current, []⟩
  match CommandLine.read words with
  | .error _ => return bare
  | .ok line =>
      match bare.rootFor ((CommandLine.given line.root).map Path.ofText) with
      | .error _ => return bare
      | .ok root =>
          if !(← isDirectory root.text) then return bare
          return { bare with tree := bare.tree.insertAt root (← readTree root.text) }

end Playbook.Main

open Playbook in
def main (words : List String) : IO UInt32 := do
  let workspace ← Main.openWorkspace words
  let (result, after, log) := (CommandLine.run words (← Main.now)).runFrom workspace
  for entry in log do
    IO.eprintln ("[" ++ entry.level.name ++ "] " ++ entry.message)
  Main.saveScripts after.tree
  match result with
  | .ok printed =>
      IO.eprint printed.err
      IO.print printed.out
      return printed.exit.toUInt32
  | .error fault =>
      IO.eprintln fault.message
      return 1
