import Playbook.Fault
import Playbook.Text.Basic

/-!
# Scripts

A script is a list of nodes. Rendering indents by two blanks for each level.
Of a statement only the first physical line is indented, because the others
belong to quoted text; of a comment every line becomes a comment line.
-/

namespace Playbook.Shell

inductive Node where
  | line (text : String)
  | comment (text : String)
  | blank
  | block (opener : String) (body : List Node) (otherwise : Option (List Node)) (closer : String)
  /-- Something else that stands where a node should. -/
  | foreign (value : Value)
deriving Inhabited

namespace Node

/-- A conditional without an alternative. -/
def when (opener : String) (body : List Node) : Node := .block opener body none "fi"

def choice (opener : String) (body otherwise : List Node) : Node :=
  .block opener body (some otherwise) "fi"

def indent (depth : Int) : String := String.ofList (List.replicate (2 * depth.toNat) ' ')

def commentLine (depth : Int) (text : List Char) : String :=
  String.ofList (Text.trimRight ((indent depth).toList ++ '#' :: ' ' :: text))

mutual

def lines (depth : Int) : Node → Attempt (List String)
  | .line text => .ok [indent depth ++ text]
  | .comment text => .ok ((Text.pieces '\n' text.toList).map (commentLine depth))
  | .blank => .ok [""]
  | .block opener body none closer => do
      let inner ← linesOf (depth + 1) body
      return (indent depth ++ opener) :: inner ++ [indent depth ++ closer]
  | .block opener body (some other) closer => do
      let inner ← linesOf (depth + 1) body
      let rest ← linesOf (depth + 1) other
      return (indent depth ++ opener) :: inner ++ (indent depth ++ "else") :: rest ++
        [indent depth ++ closer]
  | .foreign _ => .error .wrongType

def linesOf (depth : Int) : List Node → Attempt (List String)
  | [] => .ok []
  | node :: nodes => do
      let first ← lines depth node
      let rest ← linesOf depth nodes
      return first ++ rest

end

end Node

/-- The lines of the nodes, joined, with a line end behind the last. -/
def render (nodes : List Node) (depth : Int) : Attempt String := do
  return Text.join "\n" (← Node.linesOf depth nodes) ++ "\n"

end Playbook.Shell
