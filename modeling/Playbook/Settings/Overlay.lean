import Playbook.Value.Cycle

/-!
# Overlaying configuration layers

A layer goes over another: mappings are joined key by key, a list adds the
members that the lower list does not have, and anything else takes the place
of what was there.
-/

namespace Playbook.Value

def addMissing (base extra : List Value) : List Value :=
  base ++ extra.filter fun v => !base.any (·.same v)

/-- Joins collections that are inside each other `depth` deep at most. -/
def overlayWithin : Nat → Value → Value → Value
  | 0, _, v => v
  | depth + 1, current, v =>
      match current.opened, v.opened with
      | .mapping es, .mapping fs =>
          .mapping (fs.foldl (fun done entry =>
            let joined := match Entries.find? done entry.1 with
              | some lower => overlayWithin depth lower entry.2
              | none => entry.2
            Entries.insert done entry.1 joined) es)
      | .list xs, .list ys => .list (addMissing xs ys)
      | _, _ => v

mutual

/-- A value over another; a value that holds itself goes as deep as the two are written. -/
def overlay (current : Value) : Value → Value
  | .mapping fs =>
      match current.opened with
      | .mapping es => .mapping (overlayEntries es fs)
      | _ => .mapping fs
  | .list ys =>
      match current.opened with
      | .list xs => .list (addMissing xs ys)
      | _ => .list ys
  | .cycle name content =>
      overlayWithin (current.height + content.height) current (.cycle name content)
  | v => v

/-- The entries are joined one by one, each with what is there by then. -/
def overlayEntries (done : Entries) : List (Value × Value) → Entries
  | [] => done
  | (key, v) :: entries =>
      let joined := match Entries.find? done key with
        | some lower => overlay lower v
        | none => v
      overlayEntries (Entries.insert done key joined) entries

end

end Playbook.Value
