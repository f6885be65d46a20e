import Mathlib
import Playbook.Shell.Script

/-!
# Running scripts

What a script does, as far as its control flow goes. Tests are answered from
outside, one answer after the other. A run notes the statements that announce
a step or set the response of one.
-/

namespace Playbook.Shell

/-- How a part of a script comes to its end. -/
inductive Ending where
  | passed
  /-- Out of the loop around it. -/
  | left
  /-- Out of the script. -/
  | ended
deriving DecidableEq, Repr

/-- The number of tests so far, and what was noted. -/
structure Track (α : Type) where
  asked : Nat
  trace : List α
deriving DecidableEq, Repr

def Track.start : Track α := ⟨0, []⟩

def Track.map (f : α → β) (track : Track α) : Track β := ⟨track.asked, track.trace.map f⟩

/-- A part of a run. -/
abbrev Course (α : Type) := Track α → Ending × Track α

namespace Course

variable {α β : Type}

def pass : Course α := fun track => (.passed, track)

def leave : Course α := fun track => (.left, track)

def finish : Course α := fun track => (.ended, track)

def note (a : α) : Course α := fun track => (.passed, { track with trace := track.trace ++ [a] })

/-- Tests whose answers make no difference. -/
def incidental (n : Nat) : Course α :=
  fun track => (.passed, { track with asked := track.asked + n })

def andThen (first second : Course α) : Course α := fun track =>
  match first track with
  | (.passed, track) => second track
  | other => other

/-- A test goes by the next answer. -/
def ask (answers : Nat → Bool) (yes no : Course α) : Course α := fun track =>
  (if answers track.asked then yes else no) { track with asked := track.asked + 1 }

/-- A loop: leaving its body ends the loop only. -/
def repeated (body : Course α) : Nat → Course α
  | 0 => pass
  | n + 1 => fun track =>
      match body track with
      | (.passed, track) => repeated body n track
      | (.left, track) => (.passed, track)
      | (.ended, track) => (.ended, track)

def sequence (courses : List (Course α)) : Course α := courses.foldr andThen pass

@[simp] theorem pass_andThen (c : Course α) : pass.andThen c = c := rfl

@[simp] theorem leave_andThen (c : Course α) : leave.andThen c = leave := rfl

@[simp] theorem finish_andThen (c : Course α) : finish.andThen c = finish := rfl

@[simp] theorem andThen_pass (c : Course α) : c.andThen pass = c := by
  funext track
  unfold andThen
  rcases c track with ⟨_ | _ | _, _⟩ <;> rfl

@[simp] theorem andThen_assoc (c d e : Course α) :
    (c.andThen d).andThen e = c.andThen (d.andThen e) := by
  funext track
  unfold andThen
  rcases c track with ⟨_ | _ | _, _⟩ <;> rfl

@[simp] theorem incidental_zero : (incidental 0 : Course α) = pass := rfl

theorem incidental_add (m n : Nat) :
    (incidental (m + n) : Course α) = (incidental m).andThen (incidental n) := by
  funext track
  simp [incidental, andThen, Nat.add_assoc]

/-- A test with the same course on both sides is incidental. -/
@[simp] theorem ask_pass (answers : Nat → Bool) :
    (ask answers pass pass : Course α) = incidental 1 := by
  funext track
  simp [ask, pass, incidental]

@[simp] theorem sequence_nil : sequence ([] : List (Course α)) = pass := rfl

@[simp] theorem sequence_cons (c : Course α) (courses : List (Course α)) :
    sequence (c :: courses) = c.andThen (sequence courses) := rfl

/-! ## Courses that note different things -/

/-- The first course does what the second does and notes the image of what it notes. -/
def Follows (f : α → β) (c : Course β) (d : Course α) : Prop :=
  ∀ track, c (track.map f) = ((d track).1, (d track).2.map f)

variable {f : α → β} {c c' : Course β} {d d' : Course α}

theorem follows_pass : Follows f pass pass := fun _ => rfl

theorem follows_leave : Follows f leave leave := fun _ => rfl

theorem follows_finish : Follows f finish finish := fun _ => rfl

theorem follows_incidental (n : Nat) : Follows f (incidental n) (incidental n) := fun _ => rfl

theorem follows_note (a : α) : Follows f (note (f a)) (note a) := by
  intro track
  simp [note, Track.map]

theorem Follows.andThen (h : Follows f c d) (h' : Follows f c' d') :
    Follows f (c.andThen c') (d.andThen d') := by
  intro track
  have hfirst := h track
  unfold Course.andThen
  rcases hd : d track with ⟨_ | _ | _, next⟩ <;> rw [hd] at hfirst <;> simp only [hfirst]
  exact h' next

theorem Follows.ask (answers : Nat → Bool) (h : Follows f c d) (h' : Follows f c' d') :
    Follows f (ask answers c c') (ask answers d d') := by
  intro track
  have hyes := h { track with asked := track.asked + 1 }
  have hno := h' { track with asked := track.asked + 1 }
  unfold Course.ask
  cases hanswer : answers track.asked
  · simpa [Track.map, hanswer] using hno
  · simpa [Track.map, hanswer] using hyes

theorem Follows.repeated (h : Follows f c d) (n : Nat) :
    Follows f (repeated c n) (repeated d n) := by
  induction n with
  | zero => exact follows_pass
  | succ n ih =>
      intro track
      have hbody := h track
      unfold Course.repeated
      rcases hd : d track with ⟨_ | _ | _, next⟩ <;> rw [hd] at hbody <;> simp only [hbody]
      exact ih next

theorem follows_sequence {ι : Type} (items : List ι) {c : ι → Course β} {d : ι → Course α}
    (h : ∀ item, Follows f (c item) (d item)) :
    Follows f (sequence (items.map c)) (sequence (items.map d)) := by
  induction items with
  | nil => exact follows_pass
  | cons item items ih => exact (h item).andThen ih

end Course

/-! ## Nodes -/

def begins (head text : String) : Bool := decide (head.toList <+: text.toList)

def responseHead : String := "RESPONSE="

def announcementHead : String := "echo \"▶️  Step "

def isTest (opener : String) : Bool := begins "if " opener

def loopHead : String := "for iteration in $(seq 1 "

def loopTail : String := "); do"

/-- How often the body of a block is repeated, if the block is a loop. -/
def repetitions? (opener : String) : Option Int :=
  if begins loopHead opener then
    (String.ofList ((opener.toList.drop loopHead.length).rdrop loopTail.length)).toInt?
  else none

/-- A statement leaves the loop, ends the script, is noted or passes. -/
def statement (text : String) : Course String :=
  if begins "break" text then .leave
  else if begins "exit " text then .finish
  else if begins responseHead text || begins announcementHead text then .note text
  else .pass

namespace Node

open Course

variable (answers : Nat → Bool)

mutual

/-- The run of a node; the definition of a function runs nothing. -/
def run : Node → Course String
  | .line text => statement text
  | .comment _ => pass
  | .blank => pass
  | .block opener body none _ =>
      if isTest opener then ask answers (runAll body) pass
      else match repetitions? opener with
        | some n => repeated (runAll body) n.toNat
        | none => pass
  | .block opener body (some other) _ =>
      if isTest opener then ask answers (runAll body) (runAll other) else pass
  | .foreign _ => pass

def runAll : List Node → Course String
  | [] => pass
  | node :: nodes => (run node).andThen (runAll nodes)

end

@[simp] theorem run_line (text : String) : run answers (.line text) = statement text := by
  rw [run]

@[simp] theorem run_comment (text : String) : run answers (.comment text) = pass := by
  rw [run]

@[simp] theorem run_blank : run answers .blank = pass := by
  rw [run]

@[simp] theorem runAll_nil : runAll answers [] = pass := by
  rw [runAll]

@[simp] theorem runAll_cons (node : Node) (nodes : List Node) :
    runAll answers (node :: nodes) = (run answers node).andThen (runAll answers nodes) := by
  rw [runAll]

@[simp] theorem runAll_append (nodes others : List Node) :
    runAll answers (nodes ++ others) = (runAll answers nodes).andThen (runAll answers others) := by
  induction nodes with
  | nil => simp
  | cons node nodes ih => simp [ih]

theorem run_when {opener : String} (h : isTest opener) (body : List Node) :
    run answers (when opener body) = ask answers (runAll answers body) pass := by
  rw [when, run, if_pos h]

theorem run_choice {opener : String} (h : isTest opener) (body other : List Node) :
    run answers (choice opener body other) =
      ask answers (runAll answers body) (runAll answers other) := by
  rw [choice, run, if_pos h]

theorem repetitions?_limit (limit : Int) :
    repetitions? (loopHead ++ toString limit ++ loopTail) = some limit := by
  have hdrop : ((loopHead ++ toString limit ++ loopTail).toList.drop loopHead.length).rdrop
      loopTail.length = (toString limit).toList := by
    rw [String.toList_append, String.toList_append, List.append_assoc, ← String.length_toList,
      List.drop_left, ← String.length_toList, List.rdrop_append_length]
  have hhead : begins loopHead (loopHead ++ toString limit ++ loopTail) := by
    simp [begins, String.append_assoc]
  rw [repetitions?, if_pos hhead, hdrop, String.ofList_toList]
  exact Int.toInt?_repr limit

theorem run_loop (limit : Int) (body : List Node) (closer : String) :
    run answers (.block (loopHead ++ toString limit ++ loopTail) body none closer) =
      repeated (runAll answers body) limit.toNat := by
  have hloop : isTest (loopHead ++ toString limit ++ loopTail) = false := by
    simp [isTest, begins, loopHead]
  rw [run, hloop, repetitions?_limit]
  rfl

end Node

end Playbook.Shell
