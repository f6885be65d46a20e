import Playbook.Proofs.Work
import Playbook.Store

/-!
# The four collections

What the collections of a store have in common: a name, a reader of documents,
directories that are skipped. A collection is read when it is first asked for.
-/

namespace Playbook.Store

open Work

inductive Kind where
  | rulepacks
  | agents
  | prompts
  | recipes

namespace Kind

def Record : Kind → Type
  | .rulepacks => Rulepack
  | .agents => Agent
  | .prompts => Prompt
  | .recipes => Recipe

def name : Kind → String
  | .rulepacks => "rulepacks"
  | .agents => "agents"
  | .prompts => "prompts"
  | .recipes => "recipes"

def id : (kind : Kind) → kind.Record → Value
  | .rulepacks => Rulepack.id
  | .agents => Agent.id
  | .prompts => Prompt.id
  | .recipes => Recipe.id

def parse (store : Store) : (kind : Kind) → Path → Value → Attempt kind.Record
  | .rulepacks => fun _ v => Rulepack.ofValue v
  | .agents => fun _ v => Agent.ofValue v
  | .prompts => fun path v => Prompt.ofValue v (store.promptPlace path)
  | .recipes => fun _ v => Recipe.ofValue v

def skipped : Kind → List String
  | .prompts => Manifests.sharedDirs
  | _ => []

/-- The collection of a kind, as it is asked for. -/
def items : (kind : Kind) → Work Store (Collection.Items kind.Record)
  | .rulepacks => rulepackItems
  | .agents => agentItems
  | .prompts => promptItems
  | .recipes => recipeItems

/-- The collection of a kind if it has been read. -/
def held : (kind : Kind) → Store → Option (Collection.Items kind.Record)
  | .rulepacks => Store.rulepacks
  | .agents => Store.agents
  | .prompts => Store.prompts
  | .recipes => Store.recipes

/-- The store with the collection of a kind read. -/
def keep : (kind : Kind) → Collection.Items kind.Record → Store → Store
  | .rulepacks => fun items store => { store with rulepacks := some items }
  | .agents => fun items store => { store with agents := some items }
  | .prompts => fun items store => { store with prompts := some items }
  | .recipes => fun items store => { store with recipes := some items }

/-- What reading the collection of a kind writes and gives. -/
def reading (kind : Kind) (store : Store) : Log × Attempt (Collection.Items kind.Record) :=
  store.read kind.name kind.id (kind.parse store) kind.skipped

end Kind

theorem exec_kept {α : Type} {current : Store → Option (Collection.Items α)}
    {reading : Store → Log × Attempt (Collection.Items α)}
    {keep : Collection.Items α → Store → Store} {store : Store} (h : current store = none)
    (log : Log) :
    ∃ t, exec (kept current reading keep) (store, log) =
      ((reading store).2, t, log ++ (reading store).1) := by
  unfold kept
  rw [exec_bind_ok (exec_state _ _), h]
  rcases reading store with ⟨own, _ | items⟩
  · exact ⟨store, rfl⟩
  · exact ⟨keep items store, rfl⟩

theorem Kind.exec_items (kind : Kind) (tree : Tree) (settings : Settings) :
    let store := ofSettings tree settings
    let reading := store.read kind.name kind.id (kind.parse store) kind.skipped
    ∃ t, exec kind.items (store, []) = (reading.2, t, reading.1) := by
  cases kind with
  | rulepacks => exact exec_kept rfl []
  | agents => exact exec_kept rfl []
  | prompts => exact exec_kept rfl []
  | recipes => exact exec_kept rfl []

/-- The collection is there, or reading it gives it without a message. -/
def Kind.Stands (kind : Kind) (store : Store) (items : Collection.Items kind.Record) : Prop :=
  kind.held store = some items ∨ kind.held store = none ∧ kind.reading store = ([], .ok items)

theorem exec_kept_of_stands {α : Type} {current : Store → Option (Collection.Items α)}
    {reading : Store → Log × Attempt (Collection.Items α)}
    {keep : Collection.Items α → Store → Store} {store : Store} {items : Collection.Items α}
    (hkeep : current store = some items → keep items store = store)
    (h : current store = some items ∨ current store = none ∧ reading store = ([], .ok items))
    (log : Log) :
    exec (kept current reading keep) (store, log) = (.ok items, keep items store, log) := by
  unfold kept
  rw [exec_bind_ok (exec_state _ _)]
  rcases h with hheld | ⟨hnone, hreading⟩
  · rw [hheld, hkeep hheld]
    rfl
  · rw [hnone, hreading]
    change (_, _, log ++ []) = _
    rw [List.append_nil]

theorem Kind.keep_eq {kind : Kind} {store : Store} {items : Collection.Items kind.Record}
    (h : kind.held store = some items) : kind.keep items store = store := by
  cases store
  cases kind <;> cases h <;> rfl

theorem Kind.Stands.exec_items {kind : Kind} {store : Store}
    {items : Collection.Items kind.Record} (h : kind.Stands store items) (log : Log) :
    exec kind.items (store, log) = (.ok items, kind.keep items store, log) := by
  cases kind with
  | rulepacks => exact exec_kept_of_stands Kind.keep_eq h log
  | agents => exact exec_kept_of_stands Kind.keep_eq h log
  | prompts => exact exec_kept_of_stands Kind.keep_eq h log
  | recipes => exact exec_kept_of_stands Kind.keep_eq h log

end Playbook.Store
