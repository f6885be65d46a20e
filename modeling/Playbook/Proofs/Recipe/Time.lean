import Playbook.Proofs.Shell.Rendering
import Playbook.Proofs.Text

/-!
# The time of a script

The time at which a script is generated stands in one comment of its header.
It decides neither whether there is a script nor what any other line says.
-/

namespace Playbook

open Work Shell Shell.Node

/-! ## Works that only write a time down -/

/-- Whatever the time, a work does the same; the time is written into what it gives. -/
def Work.Timed {σ α β : Type} (write : String → β → α) (work : String → Work σ α) : Prop :=
  ∀ s, ∃ result s', ∀ time, exec (work time) s = (Except.map (write time) result, s')

namespace Work.Timed

variable {σ α β γ δ : Type} {write : String → β → α}

theorem pure {b : β} {a : String → α} (h : ∀ time, a time = write time b) :
    Timed write fun time => (pure (a time) : Work σ α) :=
  fun s => ⟨.ok b, s, fun time => by rw [exec_pure, h time]; rfl⟩

theorem throw_bind (fault : Fault) (next : String → γ → Work σ α) :
    Timed write fun time => (throw fault : Work σ γ) >>= next time :=
  fun s => ⟨.error fault, s, fun _ => exec_bind_error (exec_throw fault s)⟩

theorem bind {first : Work σ γ} {next : String → γ → Work σ α}
    (h : ∀ c, Timed write fun time => next time c) :
    Timed write fun time => first >>= next time := by
  intro s
  rcases hfirst : exec first s with ⟨fault | c, t⟩
  · exact ⟨.error fault, t, fun time => exec_bind_error hfirst⟩
  · obtain ⟨result, s', hnext⟩ := h c t
    exact ⟨result, s', fun time => by rw [exec_bind_ok hfirst, hnext time]⟩

theorem ite {p : Prop} [Decidable p] {work other : String → Work σ α}
    (hthen : Timed write work) (helse : Timed write other) :
    Timed write fun time => if p then work time else other time := by
  by_cases h : p
  · simpa [h] using hthen
  · simpa [h] using helse

/-- A work in which the time has been written down goes on with its parts. -/
theorem attempt_bind {given : Attempt γ} {part : String → γ → δ} {head : String → Attempt δ}
    {next : String → δ → Work σ α} (hhead : ∀ time, head time = given.map (part time))
    (h : ∀ c, Timed write fun time => next time (part time c)) :
    Timed write fun time => Work.attempt (head time) >>= next time := by
  intro s
  cases given with
  | error fault =>
      refine ⟨.error fault, s, fun time => exec_bind_error ?_⟩
      rw [hhead time, exec_attempt]
      rfl
  | ok c =>
      obtain ⟨result, s', hnext⟩ := h c s
      refine ⟨result, s', fun time => Eq.trans (exec_bind_ok ?_) (hnext time)⟩
      rw [hhead time, exec_attempt]
      rfl

end Work.Timed

/-! ## Scripts -/

namespace Setting

variable {setting : Setting} {recipe : Recipe}

/-- Nodes around the comment on the time. -/
def timedNodes (time : String) (parts : List Node × List Node) : List Node :=
  parts.1 ++ .comment ("Generated: " ++ time) :: parts.2

theorem exists_header (setting : Setting) (recipe : Recipe) (backend : Backend) :
    ∃ parts, ∀ time, setting.header recipe backend time = Except.map (timedNodes time) parts := by
  unfold header
  cases commentOn "Feature: " (setting.feature.map (·.id)) with
  | error fault => exact ⟨.error fault, fun _ => rfl⟩
  | ok feature =>
  cases commentOn "Recipe: " (some recipe.id) with
  | error fault => exact ⟨.error fault, fun _ => rfl⟩
  | ok own =>
  cases descriptionComment recipe with
  | error fault => exact ⟨.error fault, fun _ => rfl⟩
  | ok description =>
  cases commentOn "Project: " (setting.project.map (·.id)) with
  | error fault => exact ⟨.error fault, fun _ => rfl⟩
  | ok project =>
      refine ⟨.ok ([.line "#!/bin/bash", .blank] ++ feature ++ own ++ description ++ project ++
        [.comment ("Tool: " ++ backend.id), .comment ("Model: " ++ setting.modelHeader recipe)],
        [.blank, .line "set -e", .blank]), fun time => ?_⟩
      refine congrArg Except.ok ?_
      simp [timedNodes]

theorem timed_script (setting : Setting) (recipe : Recipe) (tool : Value) :
    Timed timedNodes fun time => setting.script recipe tool time := by
  unfold script
  refine .ite (.bind fun _ => .throw_bind _ _) (.bind fun backend => .bind ?_)
  rintro ⟨partition, reports⟩
  refine .bind fun _ => .ite (.throw_bind _ _) ?_
  obtain ⟨parts, hheader⟩ := setting.exists_header recipe backend
  dsimp only
  refine .attempt_bind hheader fun header => ?_
  refine .bind fun before => .bind fun loop => .bind fun behind => ?_
  refine .pure (b := (header.1, header.2 ++ setting.setup recipe backend ++
    setting.declarations recipe ++ before ++ loop ++ behind ++
      [.line ("echo \"✅ " ++ (if setting.feature.isSome then "Feature" else "Recipe") ++
        " completed!\"")])) fun time => ?_
  simp [timedNodes]

end Setting

/-! ## Texts of scripts -/

/-- The text of a point in time: it is not empty and has no blanks. -/
structure Stamp where
  text : String
  given : text ≠ ""
  plain : ∀ c ∈ text.toList, Text.isBlank c = false

namespace Stamp

theorem not_mem_newline (stamp : Stamp) : '\n' ∉ stamp.text.toList := by
  intro h
  have hblank : Text.isBlank '\n' = true := by decide
  rw [stamp.plain _ h] at hblank
  cases hblank

theorem trimRight_append {front text : List Char} (hgiven : text ≠ [])
    (hplain : ∀ c ∈ text, Text.isBlank c = false) :
    Text.trimRight (front ++ text) = front ++ text := by
  obtain ⟨init, last, rfl⟩ := List.eq_nil_or_concat text |>.resolve_left hgiven
  have hlast : Text.isBlank last = false := hplain last (by simp)
  simp [Text.trimRight, hlast]

/-- The line of the header that tells the time. -/
def line (stamp : Stamp) : String := "# Generated: " ++ stamp.text

theorem lines_comment (stamp : Stamp) :
    lines 0 (.comment ("Generated: " ++ stamp.text)) = .ok [stamp.line] := by
  have hchars : stamp.text.toList ≠ [] := by simpa using stamp.given
  have hnewline : '\n' ∉ ("Generated: " ++ stamp.text).toList := by
    rw [String.toList_append, List.mem_append]
    exact fun h => h.elim (by decide) stamp.not_mem_newline
  have hfront : (indent 0).toList ++ '#' :: ' ' :: ("Generated: " ++ stamp.text).toList =
      "# Generated: ".toList ++ stamp.text.toList := by
    rw [String.toList_append]
    rfl
  rw [lines, Text.pieces_of_notMem hnewline, List.map_singleton, commentLine, hfront,
    trimRight_append hchars stamp.plain, ← String.toList_append, String.ofList_toList, line]

theorem not_mem_newline_line (stamp : Stamp) : '\n' ∉ stamp.line.toList := by
  rw [line, String.toList_append, List.mem_append]
  exact fun h => h.elim (by decide) stamp.not_mem_newline

end Stamp

/-! ## Instants as stamps -/

/-- None of the characters of a text is blank. -/
def Text.Unblank (text : String) : Prop := ∀ c ∈ text.toList, isBlank c = false

namespace Text.Unblank

theorem append {text other : String} (h : Unblank text) (hother : Unblank other) :
    Unblank (text ++ other) := by
  intro c hc
  rw [String.toList_append] at hc
  exact (List.mem_append.1 hc).elim (h c) (hother c)

theorem of_isDigit {c : Char} (h : c.isDigit = true) : isBlank c = false := by
  have hcode : 48 ≤ c.toNat ∧ c.toNat ≤ 57 := by
    simpa [Char.isDigit, UInt32.le_iff_toNat_le] using h
  simp only [isBlank, Bool.or_eq_false_iff, Bool.and_eq_false_iff, decide_eq_false_iff_not,
    beq_eq_false_iff_ne]
  omega

theorem padded (width n : Nat) : Unblank (Playbook.padded width n) := by
  intro c hc
  rw [Playbook.padded, String.toList_ofList] at hc
  rcases List.mem_append.1 hc with hc | hc
  · rw [List.eq_of_mem_replicate hc]
    decide
  · exact of_isDigit (Nat.isDigit_of_mem_toDigits (by decide) (by decide) hc)

theorem of_all {text : String} (h : text.toList.all (fun c => !isBlank c) = true) :
    Unblank text := fun c hc => by
  simpa using List.all_eq_true.1 h c hc

theorem day (d : Day) : Unblank d.text :=
  .append (.append (.append (.append (padded _ _) (of_all rfl)) (padded _ _)) (of_all rfl))
    (padded _ _)

theorem offsetText (minutes : Int) : Unblank (Instant.offsetText minutes) := by
  refine .append (.append (.append ?_ (padded _ _)) (of_all rfl)) (padded _ _)
  split <;> exact of_all rfl

theorem instant (t : Instant) : Unblank t.text := by
  have htime : Unblank (t.day.text ++ "T" ++ Playbook.padded 2 t.hour ++ ":" ++
      Playbook.padded 2 t.minute ++ ":" ++ Playbook.padded 2 t.second) :=
    .append (.append (.append (.append (.append (.append (day _) (of_all rfl)) (padded _ _))
      (of_all rfl)) (padded _ _)) (of_all rfl)) (padded _ _)
  refine .append (.append htime ?_) ?_
  · split
    · exact of_all rfl
    · exact .append (of_all rfl) (padded _ _)
  · split
    · exact of_all rfl
    · exact offsetText _

end Text.Unblank

/-- The standard text of an instant. -/
def Instant.stamp (t : Instant) : Stamp where
  text := t.text
  given h := by
    have hchars := congrArg String.toList h
    simp [Instant.text, Instant.textWith, String.toList_append] at hchars
  plain := Text.Unblank.instant t

namespace Setting

variable {setting : Setting} {recipe : Recipe}

/-- The text of lines around that of the time. -/
def stampedText (stamp : Stamp) (parts : List String × List String) : String :=
  Text.join "\n" (parts.1 ++ stamp.line :: parts.2) ++ "\n"

theorem render_timedNodes (stamp : Stamp) (parts : List Node × List Node) :
    render (timedNodes stamp.text parts) 0 = Except.map (stampedText stamp) (do
      let before ← linesOf 0 parts.1
      let after ← linesOf 0 parts.2
      return (before, after)) := by
  rw [render, timedNodes, linesOf_append, linesOf, stamp.lines_comment]
  cases linesOf 0 parts.1 <;> cases linesOf 0 parts.2 <;> rfl

/-- One compilation at all times: a fault, or lines around that of the time. -/
theorem exists_compile (setting : Setting) (recipe : Recipe) (tool : Value) (s : Run × Log) :
    ∃ parts s', ∀ stamp : Stamp, exec (setting.compile recipe tool stamp.text) s =
      (Except.map (stampedText stamp) parts, s') := by
  obtain ⟨nodes, s', hscript⟩ := timed_script setting recipe tool s
  refine ⟨nodes >>= fun parts => do
    let before ← linesOf 0 parts.1
    let after ← linesOf 0 parts.2
    return (before, after), s', fun stamp => ?_⟩
  have hexec := hscript stamp.text
  cases nodes with
  | error fault => exact exec_bind_error hexec
  | ok parts =>
      rw [compile, exec_bind_ok hexec, exec_attempt, render_timedNodes]
      rfl

end Setting

/-- Two outcomes that differ in the line of the time and in nothing else. -/
inductive SameButTime (first second : Stamp) : Attempt String → Attempt String → Prop
  | failed (fault : Fault) : SameButTime first second (.error fault) (.error fault)
  | done {text other : String} {before after : List String}
      (htext : Text.split '\n' text = before ++ first.line :: after)
      (hother : Text.split '\n' other = before ++ second.line :: after) :
      SameButTime first second (.ok text) (.ok other)

theorem Setting.sameButTime_compile (setting : Setting) (recipe : Recipe) (tool : Value)
    (first second : Stamp) (run : Run) :
    SameButTime first second ((setting.compile recipe tool first.text).runFrom run).1
      ((setting.compile recipe tool second.text).runFrom run).1 := by
  obtain ⟨parts, s', hcompile⟩ := exists_compile setting recipe tool (run, [])
  rw [runFrom_eq, runFrom_eq, hcompile first, hcompile second]
  cases parts with
  | error fault => exact .failed fault
  | ok parts =>
      exact .done (Text.split_join_lines first.not_mem_newline_line _ _)
        (Text.split_join_lines second.not_mem_newline_line _ _)

end Playbook
