import Playbook.Value
import Playbook.Text.Basic

/-!
# Reports

A report collects the errors and warnings of a check. It is shown in order of
file, location and code, however the issues came in.
-/

namespace Playbook

inductive IssueCode where
  | schema
  | parse
  | idFormat
  | versionFormat
  | duplicateId
  | missingReference
  | cyclicExtends
  | listConflict
  | loopReference
  | unknownTool
  | forbiddenCharacter
deriving DecidableEq, Repr

namespace IssueCode

def name : IssueCode → String
  | .schema => "SCHEMA"
  | .parse => "PARSE"
  | .idFormat => "ID_FORMAT"
  | .versionFormat => "VERSION_FORMAT"
  | .duplicateId => "DUPLICATE_ID"
  | .missingReference => "MISSING_REFERENCE"
  | .cyclicExtends => "CYCLIC_EXTENDS"
  | .listConflict => "LIST_CONFLICT"
  | .loopReference => "LOOP_REFERENCE"
  | .unknownTool => "UNKNOWN_TOOL"
  | .forbiddenCharacter => "FORBIDDEN_CHARACTER"

end IssueCode

/-- `code` is the name of an `IssueCode` wherever this library makes the issue. -/
structure Issue where
  code : String
  location : String
  problem : String
  fix : String
  filePath : String
deriving DecidableEq, Repr, Inhabited

namespace Issue

def render (heading : String) (issue : Issue) : String :=
  "[" ++ heading ++ "] " ++ issue.code ++ ": " ++ issue.location ++ " " ++ issue.problem ++
    "\n  Fix: " ++ issue.fix

def key (issue : Issue) : List String := [issue.filePath, issue.location, issue.code]

def keyLess : List String → List String → Bool
  | x :: xs, y :: ys => if x = y then keyLess xs ys else decide (x < y)
  | _, _ => false

def sort (issues : List Issue) : List Issue :=
  issues.mergeSort fun a b => !keyLess b.key a.key

def document (issue : Issue) : Value :=
  .mapping [
    (.text "code", .text issue.code),
    (.text "location", .text issue.location),
    (.text "problem", .text issue.problem),
    (.text "fix", .text issue.fix),
    (.text "file_path", .text issue.filePath)]

end Issue

structure Report where
  errors : List Issue
  warnings : List Issue
  checked : Int
deriving DecidableEq, Repr, Inhabited

namespace Report

def empty : Report := ⟨[], [], 0⟩

def addError (report : Report) (issue : Issue) : Report :=
  { report with errors := report.errors ++ [issue] }

def addWarning (report : Report) (issue : Issue) : Report :=
  { report with warnings := report.warnings ++ [issue] }

def countChecked (report : Report) : Report := { report with checked := report.checked + 1 }

def append (report other : Report) : Report :=
  { errors := report.errors ++ other.errors
    warnings := report.warnings ++ other.warnings
    checked := report.checked + other.checked }

def hasErrors (report : Report) : Bool := !report.errors.isEmpty

def hasWarnings (report : Report) : Bool := !report.warnings.isEmpty

def codes (report : Report) : List String := report.errors.map (·.code)

def status (report : Report) : String := if report.hasErrors then "FAIL" else "PASS"

def render (report : Report) : String :=
  Text.join "\n" ((Issue.sort report.errors).map (·.render "FAIL") ++
    (Issue.sort report.warnings).map (·.render "WARN") ++
    [report.status ++ ": " ++ toString report.checked ++ " manifests checked, " ++
      toString report.errors.length ++ " errors, " ++
      toString report.warnings.length ++ " warnings"])

def document (report : Report) : Value :=
  .mapping [
    (.text "errors", .list ((Issue.sort report.errors).map (·.document))),
    (.text "warnings", .list ((Issue.sort report.warnings).map (·.document))),
    (.text "checked", .int report.checked),
    (.text "error_count", .int report.errors.length),
    (.text "warning_count", .int report.warnings.length),
    (.text "status", .text report.status)]

end Report

end Playbook
