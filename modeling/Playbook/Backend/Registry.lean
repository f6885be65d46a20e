import Playbook.Backend

/-!
# Registries of backends

A registry holds one backend for each tool name and lists them by name.
-/

namespace Playbook

abbrev Registry := List (String × Backend)

namespace Registry

def find? (registry : Registry) (tool : String) : Option Backend := registry.lookup tool

def has (registry : Registry) (tool : String) : Bool := (find? registry tool).isSome

def ids (registry : Registry) : List String :=
  (registry.map (·.1)).mergeSort fun a b => !decide (b < a)

def all (registry : Registry) : List Backend := (ids registry).filterMap (find? registry)

def get (registry : Registry) (tool : String) : Attempt Backend :=
  match find? registry tool with
  | some backend => .ok backend
  | none => .error (.unknownTool tool (ids registry))

/-- A value names a tool if it is a text; one that cannot be a key is refused. -/
def getNamed (registry : Registry) (tool : Value) : Attempt Backend :=
  match tool with
  | .text name => registry.get name
  | _ =>
      if tool.canBeKey then do throw (.unknownTool (← tool.shown) (ids registry))
      else .error .wrongType

def findNamed? (registry : Registry) (tool : Value) : Attempt (Option Backend) :=
  match tool with
  | .text name => .ok (find? registry name)
  | _ => if tool.canBeKey then .ok none else .error .wrongType

/-- A name that is taken is given away only to replace its backend. -/
def register (registry : Registry) (backend : Backend) (replace : Bool) : Attempt Registry :=
  if has registry backend.id then
    if replace then
      .ok (registry.map fun entry =>
        if entry.1 == backend.id then (entry.1, backend) else entry)
    else .error (.toolTaken backend.id)
  else .ok (registry ++ [(backend.id, backend)])

def ofBackends (backends : List Backend) : Registry :=
  backends.map fun backend => (backend.id, backend)

def builtIn : Registry :=
  ofBackends [
    .claudeCode,
    .copilotCli,
    .manual {
      id := "cursor"
      label := "Cursor Composer"
      recipesDir := ".cursor/.cs.recipes"
      contextFiles := [".cursor/project-rules.json"] },
    .manual {
      id := "windsurf"
      label := "Windsurf Cascade"
      recipesDir := ".windsurf/.cs.recipes"
      contextFiles := [".windsurf/rules/project-context.md"] },
    .manual {
      id := "github-copilot"
      label := "GitHub Copilot Chat"
      recipesDir := ".github/.cs.recipes"
      contextFiles := [".github/copilot-instructions.md"] }]

end Registry

end Playbook
