import Playbook.Value.Reading

/-!
# Schemas

A schema is a list of keywords, each of which allows or forbids something of
a value and says nothing about values of other kinds. `violations` lists what
a value does against a schema, and `document` is the schema as a value.
-/

namespace Playbook

inductive Kind where
  | object
  | array
  | string
  | number
  | integer
  | boolean
deriving DecidableEq, Repr

namespace Kind

def name : Kind → String
  | .object => "object"
  | .array => "array"
  | .string => "string"
  | .number => "number"
  | .integer => "integer"
  | .boolean => "boolean"

/-- The same for a value that does not hold itself. -/
def holdsOpened : Kind → Value → Bool
  | .object, .mapping _ => true
  | .array, .list _ => true
  | .string, .text _ => true
  | .number, .int _ => true
  | .number, .float _ => true
  | .integer, .int _ => true
  | .integer, .float x => x.toInt?.isSome
  | .boolean, .bool _ => true
  | _, _ => false

/-- A number without a fraction is an integer however it is written; truth values are no numbers. -/
def holds (kind : Kind) (v : Value) : Bool := kind.holdsOpened v.opened

end Kind

mutual

inductive Schema where
  | rules (keywords : List Keyword)
  | reference (name : String) (target : Schema)

inductive Keyword where
  | type (kinds : List Kind)
  | required (names : List String)
  | properties (fields : List (String × Schema))
  | additional (others : Schema)
  | items (each : Schema)
  | minLength (least : Nat)
  | minItems (least : Nat)
  | minimum (least : Int)
  | maximum (greatest : Int)
  | choices (texts : List String)
  | all (schemas : List Schema)
  | excluded (schema : Schema)

end

structure Violation where
  /-- The keys and places that lead to the value. -/
  path : List Value
  /-- The value at fault; a field that is missing has none. -/
  subject : Option Value
  text : String
  /-- Whether it is the violation of an `excluded` keyword. -/
  byExclusion : Bool

/-- The message shows the value at fault, so a number that is too long for a text stops it. -/
def Violation.message (violation : Violation) : Attempt String :=
  match violation.subject with
  | none => .ok violation.text
  | some v => do return (← v.shownQuoted) ++ " " ++ violation.text

namespace Schema

def expect (holds : Bool) (path : List Value) (subject : Option Value) (text : String) :
    List Violation :=
  if holds then [] else [⟨path, subject, text, false⟩]

def tooFew (least : Nat) : String := if least = 1 then "should be non-empty" else "is too short"

def typeViolations (kinds : List Kind) (v : Value) (path : List Value) : List Violation :=
  expect (kinds.any (·.holds v)) path v
    ("is not of type " ++ Text.join ", " (kinds.map fun kind => Text.quote kind.name))

def requiredViolations (names : List String) (v : Value) (path : List Value) :
    List Violation :=
  match v.opened with
  | .mapping es => names.flatMap fun name =>
      expect (Entries.get? es name).isSome path none (Text.quote name ++ " is a required property")
  | _ => []

def minLengthViolations (least : Nat) (v : Value) (path : List Value) : List Violation :=
  match v with
  | .text s => expect (least ≤ s.length) path v (tooFew least)
  | _ => []

def minItemsViolations (least : Nat) (v : Value) (path : List Value) : List Violation :=
  match v.opened with
  | .list items => expect (least ≤ items.length) path v (tooFew least)
  | _ => []

def minimumViolations (least : Int) (v : Value) (path : List Value) : List Violation :=
  let below := match v with
    | .int n => decide (n < least)
    | .float x => x.lessInt least
    | _ => false
  expect (!below) path v ("is less than the minimum of " ++ toString least)

def maximumViolations (greatest : Int) (v : Value) (path : List Value) : List Violation :=
  let above := match v with
    | .int n => decide (greatest < n)
    | .float x => Binary64.intLess greatest x
    | _ => false
  expect (!above) path v ("is greater than the maximum of " ++ toString greatest)

def choiceViolations (texts : List String) (v : Value) (path : List Value) : List Violation :=
  expect (v.isAmong texts) path v
    ("is not one of [" ++ Text.join ", " (texts.map Text.quote) ++ "]")

/-- The step of a path to the field of a key; the key `null` leaves none. -/
def keyStep (key : Value) : List Value := if key.isNull then [] else [key]

mutual

def violations (v : Value) (path : List Value) : Schema → List Violation
  | .rules keywords => ruleViolations v path keywords
  | .reference _ target => violations v path target

def ruleViolations (v : Value) (path : List Value) : List Keyword → List Violation
  | [] => []
  | keyword :: keywords => keywordViolations v path keyword ++ ruleViolations v path keywords

def keywordViolations (v : Value) (path : List Value) : Keyword → List Violation
  | .type kinds => typeViolations kinds v path
  | .required names => requiredViolations names v path
  | .properties fields =>
      match v.opened with
      | .mapping es => fieldViolations es path fields
      | _ => []
  | .additional others =>
      match v.opened with
      | .mapping es => es.flatMap fun e => violations e.2 (path ++ keyStep e.1) others
      | _ => []
  | .items each =>
      match v.opened with
      | .list items => items.zipIdx.flatMap fun item =>
          violations item.1 (path ++ [.int item.2]) each
      | _ => []
  | .minLength least => minLengthViolations least v path
  | .minItems least => minItemsViolations least v path
  | .minimum least => minimumViolations least v path
  | .maximum greatest => maximumViolations greatest v path
  | .choices texts => choiceViolations texts v path
  | .all schemas => allViolations v path schemas
  | .excluded schema =>
      if (violations v path schema).isEmpty then
        [⟨path, v, "should not be valid", true⟩]
      else []

def fieldViolations (es : Entries) (path : List Value) :
    List (String × Schema) → List Violation
  | [] => []
  | (name, schema) :: fields =>
      (match Entries.get? es name with
       | some x => violations x (path ++ [.text name]) schema
       | none => []) ++ fieldViolations es path fields

def allViolations (v : Value) (path : List Value) : List Schema → List Violation
  | [] => []
  | schema :: schemas => violations v path schema ++ allViolations v path schemas

end

/-! ## Schemas as documents -/

def textList (texts : List String) : Value := .list (texts.map .text)

mutual

def document : Schema → Value
  | .rules keywords => .mapping (ruleEntries keywords)
  | .reference name _ => .mapping [(.text "$ref", .text ("#/definitions/" ++ name))]

def ruleEntries : List Keyword → Entries
  | [] => []
  | keyword :: keywords => keywordEntry keyword :: ruleEntries keywords

def keywordEntry : Keyword → Value × Value
  | .type kinds =>
      (.text "type", match kinds with
        | [kind] => .text kind.name
        | _ => textList (kinds.map Kind.name))
  | .required names => (.text "required", textList names)
  | .properties fields => (.text "properties", .mapping (fieldEntries fields))
  | .additional others => (.text "additionalProperties", document others)
  | .items each => (.text "items", document each)
  | .minLength least => (.text "minLength", .int least)
  | .minItems least => (.text "minItems", .int least)
  | .minimum least => (.text "minimum", .int least)
  | .maximum greatest => (.text "maximum", .int greatest)
  | .choices texts => (.text "enum", textList texts)
  | .all schemas => (.text "allOf", .list (documents schemas))
  | .excluded schema => (.text "not", document schema)

def fieldEntries : List (String × Schema) → Entries
  | [] => []
  | (name, schema) :: fields => (.text name, document schema) :: fieldEntries fields

def documents : List Schema → List Value
  | [] => []
  | schema :: schemas => document schema :: documents schemas

end

end Schema

end Playbook
