import Playbook.Log
import Playbook.Manifest.Rulepack

/-!
# Flattening rulepacks

A rulepack gives the rules of what it extends, then its own, and gives them
once. A rulepack that is not let in brings nothing of what it extends. What
is unknown, and where a path of inheritance closes, is reported and left out.
-/

namespace Playbook

/-- The rulepacks that are known, and which of them are let in: by id, and by content. -/
structure RulepackView where
  packs : List (String × Rulepack)
  admits : String → Bool
  allows : Rulepack → Bool

namespace RulepackView

def lookup (view : RulepackView) (id : String) : Option Rulepack := view.packs.lookup id

structure Flattening where
  visited : List String
  rules : List String
  log : Log

def start : Flattening := ⟨[], [], []⟩

def cycleWarning (circle : List String) : LogEntry :=
  warn ("Cyclic rulepack inheritance truncated: " ++ Text.join " -> " circle)

def missingWarning (id referrer : String) : LogEntry :=
  warn ("Rulepack not found: " ++ id ++
    (if referrer.isEmpty then "" else " (referenced by " ++ referrer ++ ")"))

def Flattening.tell (f : Flattening) (entry : LogEntry) : Flattening :=
  { f with log := f.log ++ [entry] }

/--
Adds the rules of an id and of what it extends. `path` holds the ids on the
way from the root to it; they are different and known, so that the number of
known ids bounds its length and `fuel` is not used up.
-/
def expand (view : RulepackView) (referrer : String) :
    Nat → List String → Flattening → String → Flattening
  | 0, _, f, _ => f
  | fuel + 1, path, f, id =>
      if path.contains id then
        f.tell (cycleWarning (path.dropWhile (· != id) ++ [id]))
      else if f.visited.contains id then f
      else if !view.admits id then f
      else
        match view.lookup id with
        | none => f.tell (missingWarning id (path.getLast?.getD referrer))
        | some pack =>
            if !view.allows pack then f
            else
              let entered := { f with visited := id :: f.visited }
              let below := pack.extends.foldl (expand view referrer fuel (path ++ [id])) entered
              { below with rules := below.rules ++ pack.rules }

/-- Rules and messages for some roots, in their order. -/
def flatten (view : RulepackView) (referrer : String) (roots : List String) : Flattening :=
  roots.foldl (expand view referrer (view.packs.length + 1) []) start

end RulepackView

end Playbook
