import Playbook.Proofs.Work
import Playbook.Resolution.Admission

/-!
# Lists of a project

The lists that decide on admission are those of the project, whatever was
reported before. Only a report of lists in conflict can keep them back.
-/

namespace Playbook

open Work

namespace Admissions

/-- A project with lists in conflict has an id that a report can keep. -/
def Reportable (project : Option Project) (category : Category) : Prop :=
  ∀ p ∈ project, (p.aiTools.listsFor category).inConflict = true → p.id.canBeKey = true

def listsOf (project : Option Project) (category : Category) : Admission :=
  (project.map fun p => p.aiTools.listsFor category).getD ⟨[], []⟩

/-- What a look at the lists of a category has to report: a project that fills both. -/
def conflict? (project : Option Project) (category : Category) : Option (Value × Category) :=
  project.bind fun p =>
    if (p.aiTools.listsFor category).inConflict then some (p.id, category) else none

/-- The reports so far and one more, unless it was made before. -/
def keep (reported : List (Value × Category)) : Option (Value × Category) → List (Value × Category)
  | none => reported
  | some (id, category) =>
      if isReported reported id category then reported else reported ++ [(id, category)]

/-- The message of a report that was not made before. -/
def reports (reported : List (Value × Category)) : Option (Value × Category) → Log
  | none => []
  | some (id, category) =>
      if isReported reported id category then []
      else [⟨.error, conflictMessage id category⟩]

/-- The lists are those of the project, whatever was reported before. -/
theorem exec_lists_eq {project : Option Project} {category : Category}
    (h : Reportable project category) (admissions : Admissions) (log : Log) :
    exec (lists project category) (admissions, log) =
      (.ok (listsOf project category),
        { admissions with reported := keep admissions.reported (conflict? project category) },
        log ++ reports admissions.reported (conflict? project category)) := by
  cases project with
  | none => simp [lists, listsOf, conflict?, keep, reports]
  | some p =>
      by_cases hconflict : (p.aiTools.listsFor category).inConflict
      · have hkey := h p rfl hconflict
        by_cases hreported : isReported admissions.reported p.id category <;>
          simp [lists, hconflict, reportConflict, hkey, hreported, listsOf, exec_bind, Except.map,
            conflict?, keep, reports]
      · simp [lists, hconflict, listsOf, conflict?, keep, reports]

theorem exec_lists {project : Option Project} {category : Category}
    (h : Reportable project category) (s : Admissions × Log) :
    ∃ s', exec (lists project category) s = (.ok (listsOf project category), s') :=
  ⟨_, exec_lists_eq h s.1 s.2⟩

theorem text_isAmong (id : String) :
    (fun entry => (Value.text id).isAmong [entry]) = (· == id) := by
  funext entry
  simp [Value.isAmong, Bool.beq_eq_decide_eq, eq_comm]

/-- Asking for one id looks at the lists and compares it with their entries. -/
theorem exec_admits {project : Option Project} {category : Category}
    (h : Reportable project category) (id : Value) (admissions : Admissions) (log : Log) :
    exec (admits category id project) (admissions, log) =
      (.ok ((listsOf project category).lets fun entry => id.isAmong [entry]),
        { admissions with reported := keep admissions.reported (conflict? project category) },
        log ++ reports admissions.reported (conflict? project category)) := by
  rw [admits, exec_bind_ok (exec_lists_eq h admissions log), exec_pure]

/-- A conflict that cannot be reported keeps the lists back, and nothing is written. -/
theorem exec_lists_of_not_reportable {project : Option Project} {category : Category}
    (h : ¬ Reportable project category) (s : Admissions × Log) :
    exec (lists project category) s = (.error .wrongType, s) := by
  unfold Reportable at h
  push Not at h
  obtain ⟨p, hp, hconflict, hkey⟩ := h
  cases hp
  simp [lists, hconflict, reportConflict, hkey]

theorem of_exec_lists_ok {project : Option Project} {category : Category} {found : Admission}
    {s s' : Admissions × Log} (h : exec (lists project category) s = (.ok found, s')) :
    found = listsOf project category := by
  cases project with
  | none => cases h; rfl
  | some p =>
      have hgiven : ∀ {t : Admissions × Log},
          exec (pure (p.aiTools.listsFor category) : Work Admissions Admission) t =
            (.ok found, s') → found = listsOf (some p) category := by
        intro t ht
        cases ht
        rfl
      unfold lists at h
      dsimp only at h
      split at h
      · obtain ⟨_, _, _, h⟩ := of_exec_bind_ok h
        exact hgiven h
      · exact hgiven h

end Admissions

end Playbook
