import Playbook.Proofs.Inheritance.Reports
import Playbook.Proofs.Resolution.Rules

/-!
# Messages about the rules of some roots

What `rulesOf` writes about cycles and about unknown rulepacks is exact. It
speaks of a cycle if and only if the rulepacks that contribute have one, and
of an unknown rulepack once for each time that it is asked for.
-/

namespace Playbook

open Work

/-- A warning that begins in a certain way. -/
def LogEntry.warns (entry : LogEntry) (beginning : String) : Bool :=
  entry.level == .warning && beginning.toList.isPrefixOf entry.message.toList

namespace RulepackView

def cycleHead : String := "Cyclic rulepack inheritance truncated: "

def missingHead : String := "Rulepack not found: "

variable {circle : List String} {id referrer : String} {reports : List Report}

theorem warns_cycleWarning : (cycleWarning circle).warns cycleHead = true := by
  simp [LogEntry.warns, cycleWarning, cycleHead, warn]

theorem not_warns_cycleWarning : (cycleWarning circle).warns missingHead = false := by
  simp [LogEntry.warns, cycleWarning, missingHead, warn, List.isPrefixOf]

theorem warns_missingWarning : (missingWarning id referrer).warns missingHead = true := by
  simp [LogEntry.warns, missingWarning, missingHead, warn]

theorem not_warns_missingWarning : (missingWarning id referrer).warns cycleHead = false := by
  simp [LogEntry.warns, missingWarning, cycleHead, warn, List.isPrefixOf]

/-- The warnings of cycles among some reports are those of the circles. -/
theorem warns_cycle_iff {entry : LogEntry} :
    entry ∈ reports.map Report.entry ∧ entry.warns cycleHead ↔
      ∃ circle, .circle circle ∈ reports ∧ entry = cycleWarning circle := by
  constructor
  · rintro ⟨hentry, hwarns⟩
    obtain ⟨report, hreport, rfl⟩ := List.mem_map.1 hentry
    cases report with
    | circle circle => exact ⟨circle, hreport, rfl⟩
    | missing id referrer => simp [Report.entry, not_warns_missingWarning] at hwarns
  · rintro ⟨circle, hcircle, rfl⟩
    exact ⟨List.mem_map.2 ⟨_, hcircle, rfl⟩, warns_cycleWarning⟩

/-- The warnings of unknown rulepacks among some reports are those of the missed ids. -/
theorem filter_warns_missing :
    (reports.map Report.entry).filter (·.warns missingHead) =
      (reports.filterMap Report.missing?).map fun entry => missingWarning entry.1 entry.2 := by
  induction reports with
  | nil => rfl
  | cons report reports ih =>
      cases report with
      | circle circle =>
          simpa [Report.entry, Report.missing?, List.filterMap_cons, not_warns_cycleWarning]
            using ih
      | missing id referrer =>
          simpa [Report.entry, Report.missing?, List.filterMap_cons, warns_missingWarning] using ih

end RulepackView

namespace Resolver

variable {resolver : Resolver} {items : List (Value × Rulepack)} {project : Option Project}

/-- Let in by the lists of the project, when asked for alone. -/
def listed (resolver : Resolver) (project : Option Project) (id : String) : Bool :=
  match ((Admissions.admits .rulepacks (.text id) project).runFrom resolver.admissions).1 with
  | .ok listed => listed
  | .error _ => false

/-- Let in by the lists, and unknown. -/
def misses (resolver : Resolver) (items : List (Value × Rulepack)) (project : Option Project)
    (id : String) : Bool :=
  resolver.listed project id && (packIn items id).isNone

theorem misses_eq (hreport : Admissions.Reportable project .rulepacks) (languages : List String) :
    resolver.misses items project = (view items project languages).misses := by
  funext id
  rw [misses, listed, runFrom_eq, Admissions.exec_admits hreport, Admissions.text_isAmong]
  rfl

/-- What the lists report is no warning. -/
theorem not_warns_reports {reported : List (Value × Category)}
    {conflict : Option (Value × Category)} {entry : LogEntry}
    (h : entry ∈ Admissions.reports reported conflict) (beginning : String) :
    entry.warns beginning = false := by
  cases conflict with
  | none => cases h
  | some conflict =>
      rw [Admissions.reports] at h
      split at h
      · cases h
      · obtain rfl := List.mem_singleton.1 h
        rfl

/-- What resolving writes: what the lists report, then what the search reports. -/
theorem log_rulesOf (admissions : Admissions) (items : List (Value × Rulepack))
    {roots : List String} (hroots : roots ≠ [])
    (hreport : Admissions.Reportable project .rulepacks) (referrer : String)
    (languages : List String) :
    ((rulesOf roots project referrer languages).runFrom ⟨admissions, .ready items⟩).2.2 =
      Admissions.reports admissions.reported (Admissions.conflict? project .rulepacks) ++
        ((view items project languages).flatten referrer roots).log := by
  have hempty : roots.isEmpty = false := by simpa using hroots
  rw [runFrom_eq, rulesOf.eq_def, hempty, if_neg Bool.false_ne_true,
    exec_bind_ok (exec_inAdmissions_lists_eq hreport _ _)]
  change (exec (if !roots.any (view items project languages).admits then _ else _) _).2.2 = _
  cases hany : roots.any (view items project languages).admits with
  | true =>
      rw [Bool.not_true, if_neg Bool.false_ne_true]
      rfl
  | false =>
      have hnone : ∀ root ∈ roots, (view items project languages).admits root = false := by
        simpa using hany
      rw [RulepackView.flatten_of_not_admits hnone]
      simp [RulepackView.start]

/-- Lists in conflict that cannot be reported let nothing in. -/
theorem not_admits (hreport : ¬ Admissions.Reportable project .rulepacks)
    (languages : List String) (id : String) : ¬ resolver.Admits items project languages id := by
  rintro ⟨-, hadmits⟩
  have hlists (s : Admissions × Log) :
      exec (Admissions.admits .rulepacks (.text id) project) s = (.error .wrongType, s) :=
    exec_bind_error (Admissions.exec_lists_of_not_reportable hreport s)
  rw [runFrom_eq, admitsRulepack.eq_def, exec_bind, inAdmissions, exec_within, hlists] at hadmits
  cases hadmits

theorem not_listed (hreport : ¬ Admissions.Reportable project .rulepacks) (id : String) :
    resolver.listed project id = false := by
  simp [listed, Admissions.admits, runFrom_eq, Except.map,
    Admissions.exec_lists_of_not_reportable hreport]

theorem not_misses (hreport : ¬ Admissions.Reportable project .rulepacks) (id : String) :
    resolver.misses items project id = false := by
  rw [misses, not_listed hreport, Bool.false_and]

/-- Nothing is written where nothing is asked for or where the lists are kept back. -/
theorem log_rulesOf_eq_nil {roots : List String}
    (h : roots = [] ∨ ¬ Admissions.Reportable project .rulepacks) (referrer : String)
    (languages : List String) :
    ((rulesOf roots project referrer languages).runFrom resolver).2.2 = [] := by
  rw [runFrom_eq, rulesOf.eq_def]
  by_cases hroots : roots = []
  · simp [hroots]
  · rw [if_neg (by simpa using hroots), exec_bind, inAdmissions, exec_within,
      Admissions.exec_lists_of_not_reportable (h.resolve_left hroots)]

/--
What resolving some roots writes, where `ids` are the rulepacks that
contribute: those that are let in and reached from the roots through others
that are let in. A cycle is spoken of if and only if one of them leads back to
itself, and each time a circle is named. An unknown rulepack that the lists
let in is named once for each place among the roots and among what `ids`
extend, together with who asks for it there.
-/
structure Reported (resolver : Resolver) (items : List (Value × Rulepack))
    (project : Option Project) (languages : List String) (referrer : String)
    (roots ids : List String) (log : Log) : Prop where
  nodup : ids.Nodup
  mem_iff : ∀ id, id ∈ ids ↔ ∃ root ∈ roots, resolver.Admits items project languages root ∧
    Relation.ReflTransGen (resolver.Extends items project languages) root id
  cyclic : (∃ entry ∈ log, entry.warns RulepackView.cycleHead) ↔
    ∃ id ∈ ids, Relation.TransGen (resolver.Extends items project languages) id id
  closed : ∀ entry ∈ log, entry.warns RulepackView.cycleHead → ∃ circle,
    entry = RulepackView.cycleWarning circle ∧
      IsCircle (resolver.Extends items project languages) circle
  missed : (log.filter (·.warns RulepackView.missingHead)).Perm
    ((roots.filter (resolver.misses items project)).map
        (RulepackView.missingWarning · referrer) ++
      ids.flatMap fun id => ((parentsIn items id).filter (resolver.misses items project)).map
        (RulepackView.missingWarning · id))

theorem Reported.nil {languages : List String} {referrer : String} {roots : List String}
    (h : roots = [] ∨ ¬ Admissions.Reportable project .rulepacks) :
    Reported resolver items project languages referrer roots [] [] where
  nodup := List.nodup_nil
  mem_iff id := by
    rcases h with rfl | hreport
    · simp
    · simp [not_admits hreport]
  cyclic := by simp
  closed := by simp
  missed := by
    rcases h with rfl | hreport
    · simp
    · simp [List.filter_eq_nil_iff.2, not_misses hreport]

theorem exists_reported_rulesOf (admissions : Admissions) (items : List (Value × Rulepack))
    (project : Option Project) (languages : List String) (referrer : String)
    (roots : List String) :
    ∃ ids, Reported ⟨admissions, .ready items⟩ items project languages referrer roots ids
      ((rulesOf roots project referrer languages).runFrom ⟨admissions, .ready items⟩).2.2 := by
  by_cases hnothing : roots = [] ∨ ¬ Admissions.Reportable project .rulepacks
  · rw [log_rulesOf_eq_nil hnothing]
    exact ⟨[], .nil hnothing⟩
  · rw [not_or, not_not] at hnothing
    obtain ⟨hroots, hreport⟩ := hnothing
    obtain ⟨ids, reports, hids, hreported, hlog⟩ :=
      RulepackView.exists_reported_flatten (view items project languages) referrer roots
    rw [log_rulesOf admissions items hroots hreport, hlog]
    have hitems : (Resolver.mk admissions (.ready items)).rulepacks.Gives items := rfl
    have hcycle (entry : LogEntry) :
        entry ∈ Admissions.reports admissions.reported
            (Admissions.conflict? project .rulepacks) ++ reports.map RulepackView.Report.entry ∧
          entry.warns RulepackView.cycleHead ↔
        ∃ circle, .circle circle ∈ reports ∧ entry = RulepackView.cycleWarning circle := by
      rw [← RulepackView.warns_cycle_iff, List.mem_append]
      refine and_congr_left fun hwarns => or_iff_right fun hlists => ?_
      rw [not_warns_reports hlists] at hwarns
      cases hwarns
    refine ⟨ids, hids.nodup, fun id => ?_, ?_, fun entry hentry hwarns => ?_, ?_⟩
    · simp only [admits_iff hitems hreport, extends_eq hitems hreport]
      exact hids.mem_iff id
    · rw [extends_eq hitems hreport, ← hreported.cyclic]
      simp only [hcycle]
      exact ⟨fun ⟨_, circle, hcircle, _⟩ => ⟨circle, hcircle⟩,
        fun ⟨circle, hcircle⟩ => ⟨_, circle, hcircle, rfl⟩⟩
    · obtain ⟨circle, hcircle, rfl⟩ := (hcycle entry).1 ⟨hentry, hwarns⟩
      rw [extends_eq hitems hreport]
      exact ⟨circle, rfl, hreported.closed circle hcircle⟩
    · rw [List.filter_append,
        List.filter_eq_nil_iff.2 fun entry hentry => by simp [not_warns_reports hentry],
        List.nil_append, RulepackView.filter_warns_missing, misses_eq hreport languages]
      refine (hreported.missed.map fun entry => RulepackView.missingWarning entry.1 entry.2).trans
        (.of_eq ?_)
      simp [List.map_flatMap, RulepackView.parents, parentsIn, packIn, view, RulepackView.lookup,
        Function.comp_def]

end Resolver

end Playbook
