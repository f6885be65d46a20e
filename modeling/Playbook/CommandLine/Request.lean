import Playbook.CommandLine.Grammar

/-!
# Requests

What the commands can be asked for, and the grammars in which it is asked.
-/

namespace Playbook

/-- What can be listed. -/
inductive Listing where
  | recipes
  | agents
  | prompts
  | rulepacks
  | projects
  | tools
deriving DecidableEq, Repr

namespace Listing

def all : List Listing := [.recipes, .agents, .prompts, .rulepacks, .projects, .tools]

def name : Listing → String
  | .recipes => "recipes"
  | .agents => "agents"
  | .prompts => "prompts"
  | .rulepacks => "rulepacks"
  | .projects => "projects"
  | .tools => "tools"

def ofName? (name : String) : Option Listing := all.find? fun listing => listing.name == name

end Listing

/-- A tool or an assignment may be given as something else than a text, which is `none`. -/
inductive Request where
  | compile (recipe : String) (tool : Option String) (project feature output : Option String)
  | generate (project : String) (tools : List (Option String))
  | list (listing : Listing)
  | rules (agent project stack : Option String)
  | model (project feature agent prompt : Option String)
  | fillPrompt (prompt : String) (assignments : List (Option String))
  | validate (json : Bool)
deriving Repr

/-- A request for the repository at a root, which is searched for where it is not given. -/
structure CommandLine where
  root : Option String
  verbose : Bool
  request : Request
deriving Repr

namespace CommandLine

def programName : String := "manifold"

def versionText : String := programName ++ " 0.4.0"

/-! ## Grammars -/

def helpSwitch : Switch := ⟨["-h", "--help"], "help", .help, false⟩

def option (name field : String) : Switch := ⟨[name], field, .value, false⟩

def mainSwitches : List Switch :=
  [helpSwitch,
   option "--root" "root",
   ⟨["--verbose", "-v"], "verbose", .mark, false⟩,
   ⟨["--version"], "version", .version, false⟩]

/-- Each command with its switches and its position. -/
def commands : List (String × Grammar) :=
  [("compile",
     ⟨[helpSwitch, ⟨["--tool"], "tool", .value, true⟩, option "--project" "project",
        option "--feature" "feature", ⟨["--output", "-o"], "output", .value, false⟩],
      some ⟨"recipe", .one, []⟩⟩),
   ("generate",
     ⟨[helpSwitch, ⟨["--tool"], "tool", .values, false⟩], some ⟨"project", .one, []⟩⟩),
   ("list", ⟨[helpSwitch], some ⟨"kind", .one, Listing.all.map Listing.name⟩⟩),
   ("rules",
     ⟨[helpSwitch, option "--project" "project", option "--stack" "stack"],
      some ⟨"agent", .optional, []⟩⟩),
   ("model",
     ⟨[helpSwitch, option "--project" "project", option "--feature" "feature",
        option "--agent" "agent", option "--prompt" "prompt"], none⟩),
   ("fill-prompt",
     ⟨[helpSwitch, ⟨["--var"], "var", .values, false⟩], some ⟨"prompt", .one, []⟩⟩),
   ("validate", ⟨[helpSwitch, ⟨["--json"], "json", .mark, false⟩], none⟩)]

def mainGrammar : Grammar :=
  ⟨mainSwitches, some ⟨"command", .command, commands.map (·.1)⟩⟩

/-! ## Reading -/

def requestOf (command : String) (parsed : Parsed) : Option Request :=
  let value := parsed.value?
  match command with
  | "compile" => do
      return .compile (← value "recipe") (← (parsed.values "tool").getLast?) (value "project")
        (value "feature") (value "output")
  | "generate" => do return .generate (← value "project") (parsed.values "tool")
  | "list" => do return .list (← Listing.ofName? (← value "kind"))
  | "rules" => some (.rules (value "agent") (value "project") (value "stack"))
  | "model" =>
      some (.model (value "project") (value "feature") (value "agent") (value "prompt"))
  | "fill-prompt" => do return .fillPrompt (← value "prompt") (parsed.values "var")
  | "validate" => some (.validate (parsed.has "json"))
  | _ => none

/-- Reads the words behind the name of the program. -/
def read (words : List String) : Except Stop CommandLine := do
  let outer ← parse mainGrammar none words
  let absent : Stop := .trouble (.absent ["command"])
  match outer.command with
  | none | some [] => throw absent
  | some (command :: rest) =>
      match commands.lookup command with
      | none => throw absent
      | some grammar =>
          let inner ← parse grammar (some command) rest
          let surplus := outer.surplus ++ inner.surplus
          if !surplus.isEmpty then throw (.trouble (.unrecognized surplus))
          match requestOf command inner with
          | none => throw absent
          | some request => return ⟨outer.value? "root", outer.has "verbose", request⟩

/-! ## Usage -/

def switchUsage (switch : Switch) : String :=
  let name := switch.names.headD ""
  let shown := if switch.takesValue then name ++ " " ++ switch.field.toUpper else name
  if switch.required then shown else "[" ++ shown ++ "]"

def positionUsage (position : Position) : String :=
  let choices := "\x7b" ++ Text.join "," position.choices ++ "\x7d"
  let shown := if position.choices.isEmpty then position.field else choices
  match position.arity with
  | .one => shown
  | .optional => "[" ++ shown ++ "]"
  | .command => shown ++ " ..."

def usage (command : Option String) : String :=
  let grammar := (command.bind fun name => commands.lookup name).getD mainGrammar
  let program := programName ++ (match command with
    | some name => " " ++ name
    | none => "")
  Text.join " " (("usage: " ++ program) :: grammar.switches.map switchUsage ++
    (grammar.position.map positionUsage).toList) ++ "\n"

end CommandLine

end Playbook
