import Playbook.Fault

/-!
# Messages on the way

A `Work` is a computation on a state that writes messages and can give up.
The state and the messages up to that point stay when it does.
-/

namespace Playbook

inductive Level where
  | info
  | warning
  | error
deriving DecidableEq, Repr, Inhabited

def Level.name : Level → String
  | .info => "INFO"
  | .warning => "WARNING"
  | .error => "ERROR"

structure LogEntry where
  level : Level
  message : String
deriving DecidableEq, Repr, Inhabited

abbrev Log := List LogEntry

def warn (message : String) : LogEntry := ⟨.warning, message⟩

abbrev Work (σ : Type) := ExceptT Fault (StateM (σ × Log))

namespace Work

def state : Work σ σ := do return (← getThe (σ × Log)).1

def setState (s : σ) : Work σ Unit := modifyThe (σ × Log) fun (_, log) => (s, log)

def change (f : σ → σ) : Work σ Unit := modifyThe (σ × Log) fun (s, log) => (f s, log)

def tell (entries : Log) : Work σ Unit :=
  modifyThe (σ × Log) fun (s, log) => (s, log ++ entries)

def say (level : Level) (message : String) : Work σ Unit := tell [⟨level, message⟩]

def attempt (result : Attempt α) : Work σ α := ExceptT.mk (pure result)

/-- What a work does to a part of the state. -/
def within (part : σ → τ) (put : τ → σ → σ) (work : Work τ α) : Work σ α :=
  ExceptT.mk fun (s, log) =>
    match work.run (part s, log) with
    | (result, (t, log)) => (result, (put t s, log))

/-- The fault of a work as a value. -/
def caught (work : Work σ α) : Work σ (Attempt α) :=
  ExceptT.mk fun s =>
    match work.run s with
    | (result, s) => (.ok result, s)

def runFrom (work : Work σ α) (s : σ) : Attempt α × σ × Log := work.run (s, [])

end Work

/--
A collection of manifests by id, in the order in which they were read. An
unread collection knows what reading it writes and gives.
-/
inductive Shelf (α : Type) where
  | unread (log : Log) (outcome : Attempt (List (Value × α)))
  | ready (items : List (Value × α))

namespace Shelf

/-- Reads the collection if it has not been read; a failed reading leaves it unread. -/
def items : Work (Shelf α) (List (Value × α)) := do
  match ← Work.state with
  | .ready items => return items
  | .unread log outcome =>
      Work.tell log
      let items ← Work.attempt outcome
      Work.setState (.ready items)
      return items

def find? (items : List (Value × α)) (id : Value) : Option α :=
  (items.find? fun item => item.1.same id).map (·.2)

/-- The manifest with an id, which has to be a possible key. -/
def get? (id : Value) : Work (Shelf α) (Option α) := do
  let found ← items
  if id.canBeKey then return find? found id else throw .wrongType

end Shelf

end Playbook
