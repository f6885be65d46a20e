import Playbook.Store

/-!
# Workspaces

A workspace is where commands run: the files, the environment, the current
directory, and the settings that were read before, by the root they are for.
-/

namespace Playbook

structure Workspace where
  tree : Tree
  environment : Environment
  current : Path
  remembered : List (String × Settings)

namespace Workspace

/-- Makes a directory the current one. -/
def enter (path : Path) : Work Workspace Unit := do
  match (← Work.state).tree.look path with
  | .ok (.directory _) => Work.change fun workspace => { workspace with current := path }
  | .ok (.file _) => throw (.file .notDirectory path.text)
  | .error trouble => throw (.file trouble path.text)

/-- The given root, or the one found from the current directory. -/
def rootFor (workspace : Workspace) (root : Option Path) : Attempt Path :=
  match root with
  | some path => Settings.located workspace.current path
  | none =>
      Settings.findRoot workspace.tree workspace.environment workspace.current workspace.current

/-- Settings as the files have them now. -/
def readSettings (root : Option Path) : Work Workspace Settings := do
  let workspace ← Work.state
  let place ← Work.attempt (workspace.rootFor root)
  Work.within (fun _ => ()) (fun _ workspace => workspace)
    (Settings.load workspace.tree workspace.environment place)

/-- Settings that are read once for each root. -/
def settings (root : Option Path) : Work Workspace Settings := do
  let workspace ← Work.state
  let place := (← Work.attempt (workspace.rootFor root)).text
  match workspace.remembered.lookup place with
  | some settings => return settings
  | none =>
      let settings ← readSettings root
      Work.change fun workspace =>
        { workspace with remembered := workspace.remembered ++ [(place, settings)] }
      return settings

def forget : Work Workspace Unit := Work.change fun workspace => { workspace with remembered := [] }

/-- Work in a new store; the files that it writes stay. -/
def inNewStore (settings : Settings) (work : Work Store α) : Work Workspace α :=
  Work.within (fun workspace => Store.ofSettings workspace.tree settings)
    (fun store workspace => { workspace with tree := store.tree }) work

/-- Writes a script at a path that counts from the current directory. -/
def writeScript (path : Path) (text : String) : Work Workspace Unit := do
  let workspace ← Work.state
  let (tree, outcome) := workspace.tree.writeScript workspace.current path text
  Work.setState { workspace with tree }
  Work.attempt outcome

end Workspace

end Playbook
