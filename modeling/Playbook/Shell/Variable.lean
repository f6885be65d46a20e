import Playbook.Template
import Playbook.Text.Case
import Playbook.Path

/-!
# Shell variables

Names of shell variables for manifest keys and documents, and the exchange of
`{{key}}` for `${KEY}`.
-/

namespace Playbook.Shell

def isCapitalOrDigit (c : Char) : Bool :=
  (decide ('A' ≤ c) && decide (c ≤ 'Z')) || (decide ('0' ≤ c) && decide (c ≤ '9'))

def nameChar (c : Char) : Char := if isCapitalOrDigit c || c == '_' then c else '_'

/-- Capitals, digits and underscores, with an underscore in front of a first digit. -/
def variableNameChars (key : List Char) : List Char :=
  match (key.flatMap Text.upperChar).map nameChar with
  | [] => []
  | c :: rest => if '0' ≤ c ∧ c ≤ '9' then '_' :: c :: rest else c :: rest

def variableName (key : String) : String := String.ofList (variableNameChars key.toList)

def reference (name : List Char) : List Char := '$' :: '{' :: name ++ ['}']

/-- Declared keys become references; other placeholders stay. -/
def substitute (text : String) (keys : List String) : String :=
  String.ofList (Template.replace
    (fun name =>
      if keys.contains (String.ofList name) then some (reference (variableNameChars name))
      else none)
    text.toList)

/-- Every placeholder becomes a reference. -/
def substituteAll (text : String) : String :=
  String.ofList (Template.replace (fun name => some (reference (variableNameChars name)))
    text.toList)

def documentChar (c : Char) : Char := if isCapitalOrDigit c then c else '_'

/-- The variable for the content of a document, made from the last part of its path. -/
def documentVariable (path : String) : String :=
  "DOC_CONTENT_" ++
    String.ofList (((Text.afterLast '/' path).toList.flatMap Text.upperChar).map documentChar)

/-- The name itself, then the name with `_2`, `_3`, … -/
def numbered (base : String) (n : Nat) : String :=
  if n = 0 then base else base ++ "_" ++ toString (n + 1)

/-- The first numbered form that is not in use; one of the first `used.length + 1` is free. -/
def freshName (used : List String) (base : String) : String :=
  (((List.range (used.length + 1)).map (numbered base)).find? fun name =>
    !used.contains name).getD base

def documentVariablesFrom (used : List String) : List String → List String
  | [] => []
  | path :: paths =>
      let name := freshName used (documentVariable path)
      name :: documentVariablesFrom (name :: used) paths

/-- Different variables for the documents of a step, in their order. -/
def documentVariables (paths : List String) : List String := documentVariablesFrom [] paths

/-- Where a document is handed over: its last name in the documents directory. -/
def documentPath (directory path : String) : String := directory ++ "/" ++ (Path.ofText path).name

end Playbook.Shell
