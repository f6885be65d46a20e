import Playbook.Manifest.Prompt
import Playbook.Template

/-!
# Filling prompts

A value counts for a section if it is given (`Value.isGiven`), and replaces a
placeholder unless it is `null`; a number that is too long for a text cannot
replace one. A prompt is filled with the defaults of its
variables, over which the values of the caller go.
-/

namespace Playbook

namespace Template

def valueOf? (values : Entries) (name : List Char) : Option Value :=
  Entries.get? values (String.ofList name)

def countsIn (values : Entries) (name : List Char) : Bool :=
  match valueOf? values name with
  | some v => v.isGiven
  | none => false

def chosenIn (values : Entries) (name : List Char) : Option (List Char) :=
  match valueOf? values name with
  | some .null => none
  | some v => some v.display.toList
  | none => none

def renderSections (template : String) (values : Entries) : String :=
  String.ofList (resolveSections (countsIn values) template.toList)

def fill (template : String) (values : Entries) : String :=
  String.ofList
    (replace (chosenIn values) (resolveSections (countsIn values) template.toList))

/-- Whether the value that would be put in for a segment has a text. -/
def isWritable (values : Entries) (segment : Segment) : Bool :=
  ((segment.name?.bind (valueOf? values)).map (·.isShowable)).getD true

/-- The filled template, unless a number to be put in is too long for a text. -/
def filled (template : String) (values : Entries) : Attempt String :=
  if (segments (resolveSections (countsIn values) template.toList)).all (isWritable values) then
    .ok (fill template values)
  else .error (.tooManyDigits none)

end Template

namespace Prompt

/-- A required variable without a default whose value does not count. -/
def isMissing (values : Entries) (v : PromptVariable) : Attempt Bool :=
  if !v.required then .ok false
  else if !v.name.canBeKey then .error .wrongType
  else
    let given := match Entries.find? values v.name with
      | some x => x.isGiven
      | none => false
    .ok (!given && v.default.isNone)

def missingVariables (prompt : Prompt) (values : Entries) : Attempt (List Value) := do
  let missing ← prompt.declared.filterM (isMissing values)
  return missing.map (·.name)

def defaultEntries (prompt : Prompt) : Attempt Entries :=
  prompt.declared.foldlM (fun entries v =>
    match v.default with
    | none => .ok entries
    | some text =>
        if v.name.canBeKey then .ok (Entries.insert entries v.name (.text text))
        else .error .wrongType) ([] : Entries)

/-- The defaults of a prompt under the values of the caller that are not `null`. -/
def mergedValues (prompt : Prompt) (values : Entries) : Attempt Entries := do
  let defaults ← prompt.defaultEntries
  return (values.filter fun e => !e.2.isNull).foldl
    (fun entries e => Entries.insert entries e.1 e.2) defaults

def textNames (names : List Value) : Attempt (List String) :=
  names.mapM fun name => match name with
    | .text s => .ok s
    | _ => .error .wrongType

/-- The content of a prompt with its variables filled in; `strict` refuses missing ones. -/
def fill (prompt : Prompt) (values : Entries) (strict : Bool) : Attempt String := do
  let merged ← prompt.mergedValues values
  if strict then
    let missing ← prompt.missingVariables merged
    if !missing.isEmpty then
      throw (.missingVariables (← prompt.id.shown) (← textNames missing))
  match prompt.content with
  | .text content => Template.filled content merged
  | _ => throw .wrongType

end Prompt

end Playbook
