import Playbook.Value.Display
import Playbook.Text.Basic

/-!
# Faults

`Fault` names each cause for which a command gives up. `message` is its text
where one is shown alone, `reason` its text inside another message.
-/

namespace Playbook

/-- What the file system refuses to do. -/
inductive FileTrouble where
  | missing
  | exists
  | notDirectory
  | isDirectory
  | nameTooLong
deriving DecidableEq, Repr

namespace FileTrouble

def number : FileTrouble → Nat
  | .missing => 2
  | .exists => 17
  | .notDirectory => 20
  | .isDirectory => 21
  | .nameTooLong => 36

def description : FileTrouble → String
  | .missing => "No such file or directory"
  | .exists => "File exists"
  | .notDirectory => "Not a directory"
  | .isDirectory => "Is a directory"
  | .nameTooLong => "File name too long"

def message (trouble : FileTrouble) (path : String) : String :=
  "[Errno " ++ toString trouble.number ++ "] " ++ trouble.description ++ ": " ++ Text.quote path

end FileTrouble

/-- What is too great for what it should become. -/
inductive Excess where
  /-- An infinite number, as a whole one. -/
  | infinity
  /-- A whole number, as a binary one. -/
  | whole
  /-- The code of a character. -/
  | code
deriving DecidableEq, Repr

namespace Excess

def text : Excess → String
  | .infinity => "cannot convert float infinity to integer"
  | .whole => "int too large to convert to float"
  | .code => "Python int too large to convert to C int"

end Excess

/-- The quoted text in the message on a text that is no whole number is cut to this length. -/
def quoteLimit : Nat := 200

inductive Fault where
  /-- A look-up in what is no mapping, or a text operation on what is no text. -/
  | lacksOperation
  /-- A value of a kind that cannot be listed, indexed, used as a key, ordered or combined. -/
  | wrongType
  | undecodable
  | overflow (excess : Excess)
  /-- A character is looked at where a text has ended. -/
  | pastEnd
  | missingKey (key : String)
  | unknownDirectory (kind : String)
  | plain (text : String)
  | notFound (kind id : String) (path : Option String)
  | unloadable (path reason : String)
  | uncompilable (recipe reason : String)
  | unknownTool (tool : String) (available : List String)
  | missingVariables (prompt : String) (names : List String)
  | notAChoice (value : Value) (choice : String)
  | notAnInteger (quoted : String) (base : Nat)
  | notANumber (quoted : String)
  /-- A whole number beyond `digitLimit`, with its digits where it is read from text. -/
  | tooManyDigits (digits : Option Nat)
  | notAPair (index length : Nat)
  | outOfRange (text : String)
  | unknownCategory (category : String)
  | noSchema (kind : String)
  | toolTaken (tool : String)
  | notAnAssignment (text : String)
  | rulesNeedTarget
  | stackNeedsProject
  | zeroInPath
  | file (trouble : FileTrouble) (path : String)

namespace Fault

def message : Fault → String
  | .lacksOperation => "<AttributeError>"
  | .wrongType => "<TypeError>"
  | .undecodable => "<UnicodeDecodeError>"
  | .overflow excess => excess.text
  | .pastEnd => "string index out of range"
  | .missingKey key => key
  | .unknownDirectory kind => "Unknown manifest directory kind: " ++ kind
  | .plain text => text
  | .notFound kind id path =>
      kind ++ " '" ++ id ++ "' not found" ++
        (match path with
         | some place => if place.isEmpty then "" else " at " ++ place
         | none => "")
  | .unloadable path reason => "Cannot load manifest " ++ path ++ ": " ++ reason
  | .uncompilable recipe reason => "Recipe '" ++ recipe ++ "' cannot be compiled: " ++ reason
  | .unknownTool tool available =>
      "Unknown tool: " ++ tool ++
        (if available.isEmpty then "" else ". Available: " ++ Text.join ", " available)
  | .missingVariables prompt names =>
      "Prompt '" ++ prompt ++ "' is missing required variables: " ++ Text.join ", " names
  | .notAChoice value choice => value.quoted ++ " is not a valid " ++ choice
  | .notAnInteger quoted base =>
      "invalid literal for int() with base " ++ toString base ++ ": " ++
        String.ofList (quoted.toList.take quoteLimit)
  | .notANumber quoted => "could not convert string to float: " ++ quoted
  | .tooManyDigits digits =>
      "Exceeds the limit (" ++ toString Text.digitLimit ++ " digits) for integer string conversion" ++
        (match digits with
         | some count => ": value has " ++ toString count ++ " digits"
         | none => "") ++
        "; use sys.set_int_max_str_digits() to increase the limit"
  | .notAPair index length =>
      "dictionary update sequence element #" ++ toString index ++ " has length " ++
        toString length ++ "; 2 is required"
  | .outOfRange text => text
  | .unknownCategory category => "Unknown category: " ++ category
  | .noSchema kind => "No schema for manifest kind: " ++ kind
  | .toolTaken tool => "Backend already registered for tool: " ++ tool
  | .notAnAssignment text => "Expected KEY=VALUE, got: " ++ text
  | .rulesNeedTarget => "rules needs an agent id, --project, or both"
  | .stackNeedsProject => "--stack requires --project"
  | .zeroInPath => "embedded null byte"
  | .file trouble path => trouble.message path

/-- A missing key is quoted inside another message. -/
def reason : Fault → String
  | .missingKey key => Text.quote key
  | .unknownDirectory kind => Text.quote ("Unknown manifest directory kind: " ++ kind)
  | fault => fault.message

/-- Faults in finding or using a manifest, which the command line reports. -/
def isManifestFault : Fault → Bool
  | .plain _ | .notFound .. | .unloadable .. | .uncompilable .. | .unknownTool ..
  | .missingVariables .. => true
  | _ => false

/-- Faults in the content of a value of the right kind. -/
def isValueFault : Fault → Bool
  | .undecodable | .unknownTool .. | .notAChoice .. | .notAnInteger .. | .notANumber _
  | .tooManyDigits _ | .notAPair .. | .outOfRange _ | .unknownCategory _ | .noSchema _
  | .toolTaken _ | .notAnAssignment _ | .rulesNeedTarget | .stackNeedsProject
  | .zeroInPath => true
  | _ => false

/-- Faults for which a single manifest is passed over. -/
def isContentFault : Fault → Bool
  | .missingKey _ | .unknownDirectory _ | .wrongType => true
  | fault => fault.isValueFault

end Fault

/-- A computation that can give up. -/
abbrev Attempt := Except Fault

end Playbook
