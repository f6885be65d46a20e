import Playbook.Proofs.Recipe.Lowering
import Playbook.Proofs.Shell.AndOr

/-!
# Commands that check

The check behind a step turns the status of the first of its commands, not that
of all of them. A script ends as it should where the other commands make no
difference. The command of a loop is tested as it is.
-/

namespace Playbook

open Shell Shell.Node Shell.Course

/-- The next test of a run is answered by the status of a list. -/
def Shell.AndOr.Answers (list : AndOr) (statuses : Nat → Nat) (answers : Nat → Bool)
    (track : Track String) : Prop :=
  answers track.asked = true ↔ list.status statuses = 0

namespace Setting

variable {step : Step} {check : Check} {loop : Loop} {list : AndOr} {prompt : String}

theorem ended_checkNodes_iff (answers : Nat → Bool) (track : Track String) :
    (runAll answers (checkNodes check) track).1 = .ended ↔ answers track.asked = true := by
  rw [runAll_checkNodes]
  cases hanswer : answers track.asked <;> simp [ask, finish, Course.pass, hanswer]

/--
The check of a step tests its commands with the first one turned. It ends the
script exactly if they fail where the others make no difference, for all
statuses only if there are no others.
-/
theorem ended_guardNodes_iff (hcondition : step.condition = some ⟨.onSuccess, some check⟩)
    (hcommand : check.inspection = .command) (hlist : AndOr.ofText check.cmd = some list) :
    ∃ opener message, guardNodes step = [.when opener [.line message, .line "exit 1"]] ∧
      AndOr.ofOpener opener = some list.negateFirst ∧
      (∀ statuses answers track, list.negateFirst.Answers statuses answers track →
        (((runAll answers (guardNodes step) track).1 = .ended ↔ list.status statuses ≠ 0) ↔
          AndOr.Neutral statuses list.rest 1)) ∧
      ((∀ statuses answers track, list.negateFirst.Answers statuses answers track →
        ((runAll answers (guardNodes step) track).1 = .ended ↔ list.status statuses ≠ 0)) ↔
          list.rest = []) := by
  have hguard : guardNodes step = checkNodes check := by rw [guardNodes, hcondition]
  have hends (statuses : Nat → Nat) (answers : Nat → Bool) (track : Track String)
      (hanswers : list.negateFirst.Answers statuses answers track) :
      ((runAll answers (guardNodes step) track).1 = .ended ↔ list.status statuses ≠ 0) ↔
        AndOr.Neutral statuses list.rest 1 := by
    have hended : (runAll answers (guardNodes step) track).1 = .ended ↔
        list.negateFirst.status statuses = 0 := by
      rw [hguard, ended_checkNodes_iff]
      exact hanswers
    rw [hended, AndOr.status_negateFirst_turned_iff]
  refine ⟨_, _, by rw [hguard, checkNodes, hcommand]; rfl, AndOr.ofOpener_if_not hlist, hends, ?_⟩
  rw [← AndOr.forall_neutral_iff 1]
  refine forall_congr' fun statuses => ⟨fun h => ?_, fun h answers track hanswers =>
    (hends statuses answers track hanswers).2 h⟩
  have hanswers : list.negateFirst.Answers statuses
      (fun _ => decide (list.negateFirst.status statuses = 0)) Track.start := by
    simp [AndOr.Answers]
  exact (hends _ _ _ hanswers).1 (h _ _ hanswers)

/-- A check with two commands. -/
def twoFilesStep : Step :=
  { (default : Step) with
    condition := some ⟨.onSuccess, some { (default : Check) with
      inspection := .command, cmd := "test -f plan.md && test -f notes.md" }⟩ }

def twoFiles : AndOr :=
  let test (file : String) : Pipeline :=
    ⟨false, ["test", "-f", file].map fun text => .word text.toList⟩
  ⟨test "plan.md", [(.and, test "notes.md")]⟩

/-- The second command fails, and the script goes on. -/
theorem ended_guardNodes_iff_two_files :
    AndOr.ofText "test -f plan.md && test -f notes.md" = some twoFiles ∧
      twoFiles.status id ≠ 0 ∧
      ∀ answers track, twoFiles.negateFirst.Answers id answers track →
        (runAll answers (guardNodes twoFilesStep) track).1 ≠ .ended := by
  have hlist : AndOr.ofText "test -f plan.md && test -f notes.md" = some twoFiles := by
    decide +kernel
  have hfails : twoFiles.status id ≠ 0 := by decide
  have hneutral : ¬ AndOr.Neutral id twoFiles.rest 1 := by
    unfold AndOr.Neutral
    decide
  obtain ⟨_, _, _, _, hends, _⟩ :=
    @ended_guardNodes_iff twoFilesStep _ _ rfl rfl hlist
  refine ⟨hlist, hfails, fun answers track hanswers hended => hneutral ?_⟩
  exact (hends id answers track hanswers).1 (iff_of_true hended hfails)

/-- The command of a loop ends it exactly if all of the command succeeds. -/
theorem left_loopExit_iff (hcondition : loop.condition = some ⟨.command, cmd, prompt⟩)
    (hlist : AndOr.ofText cmd = some list) :
    ∃ opener body, loopExit loop = [.when opener body] ∧ AndOr.ofOpener opener = some list ∧
      ∀ statuses answers track, list.Answers statuses answers track →
        ((runAll answers (loopExit loop) track).1 = .left ↔ list.status statuses = 0) := by
  have hsome : cmd.isEmpty = false := by
    rw [Bool.eq_false_iff]
    intro hempty
    rw [String.isEmpty_iff.1 hempty] at hlist
    cases hlist
  refine ⟨_, _, by rw [loopExit, hcondition]; simp only [hsome]; rfl, AndOr.ofOpener_if hlist,
    fun statuses answers track hanswers => ?_⟩
  refine Iff.trans ?_ hanswers
  rw [runAll_loopExit, Loop.stops, hcondition]
  cases hanswer : answers track.asked <;> simp [hsome, ask, leave, Course.pass, hanswer]

end Setting

end Playbook
