import Playbook.Proofs.Inheritance.Flattening
import Playbook.Proofs.Resolution.Admission
import Playbook.Resolution.Rules

/-!
# Rules of some roots

`rulesOf` gives the rules of exactly the rulepacks that are let in and reached
through rulepacks that are let in, where `admitsRulepack` and the look-up say
what is let in. A project with lists in conflict is reported by its id, which
has to be a possible key; this is the one thing that can keep an answer back.
-/

namespace Playbook

open Work

namespace Resolver

/-- What the resolver sees of the rulepacks on behalf of a project. -/
def view (items : List (Value × Rulepack)) (project : Option Project)
    (languages : List String) : RulepackView where
  packs := byText items
  admits id := (Admissions.listsOf project .rulepacks).lets (· == id)
  allows := match project with
    | none => fun _ => true
    | some p => stackAllows p languages

/-- Found, and let in when asked for alone. -/
def Admits (resolver : Resolver) (items : List (Value × Rulepack)) (project : Option Project)
    (languages : List String) (id : String) : Prop :=
  ((byText items).lookup id).isSome ∧
    ((admitsRulepack id project languages).runFrom resolver).1 = .ok true

variable {resolver : Resolver} {items : List (Value × Rulepack)} {project : Option Project}

theorem exec_inAdmissions_lists_eq {category : Category}
    (h : Admissions.Reportable project category) (s : Resolver) (log : Log) :
    exec (inAdmissions (Admissions.lists project category)) (s, log) =
      (.ok (Admissions.listsOf project category),
        { s with admissions := { s.admissions with
            reported := Admissions.keep s.admissions.reported
              (Admissions.conflict? project category) } },
        log ++ Admissions.reports s.admissions.reported
          (Admissions.conflict? project category)) := by
  rw [inAdmissions, exec_within, Admissions.exec_lists_eq h]

theorem exec_inAdmissions_lists {category : Category}
    (h : Admissions.Reportable project category) (s : Resolver) (log : Log) :
    ∃ admissions log', exec (inAdmissions (Admissions.lists project category)) (s, log) =
      (.ok (Admissions.listsOf project category), { s with admissions }, log') :=
  ⟨_, _, exec_inAdmissions_lists_eq h s log⟩

theorem exec_rulepackItems {s : Resolver} (h : s.rulepacks.Gives items) (log : Log) :
    ∃ s', exec rulepackItems (s, log) = (.ok items, s') := by
  obtain ⟨log', hexec⟩ := Shelf.exec_items h log
  exact ⟨_, by rw [rulepackItems, exec_within, hexec]⟩

/-- Asking for one rulepack decides as the search does. -/
theorem exec_admitsRulepack (hitems : resolver.rulepacks.Gives items)
    (hreport : Admissions.Reportable project .rulepacks) (languages : List String)
    (id : String) :
    ((admitsRulepack id project languages).runFrom resolver).1 =
      .ok ((view items project languages).admits id &&
        (((byText items).lookup id).map (view items project languages).allows).getD true) := by
  have hlisted : ∃ admissions log,
      exec (inAdmissions (Admissions.admits .rulepacks (.text id) project)) (resolver, []) =
        (.ok ((view items project languages).admits id), { resolver with admissions }, log) := by
    rw [inAdmissions, exec_within, Admissions.exec_admits hreport, Admissions.text_isAmong]
    exact ⟨_, _, rfl⟩
  obtain ⟨admissions, log, hlisted⟩ := hlisted
  rw [runFrom_eq, admitsRulepack.eq_def, exec_bind_ok hlisted]
  cases hadmits : (view items project languages).admits id with
  | false => simp
  | true =>
      cases project with
      | none => cases (byText items).lookup id <;> simp [view]
      | some p =>
          obtain ⟨s', hread⟩ := exec_rulepackItems (s := { resolver with admissions }) hitems log
          rw [if_neg (by simp), exec_bind_ok hread]
          cases hfound : (byText items).lookup id <;> simp [view, hfound]

theorem admits_iff (hitems : resolver.rulepacks.Gives items)
    (hreport : Admissions.Reportable project .rulepacks) (languages : List String)
    (id : String) :
    resolver.Admits items project languages id ↔ (view items project languages).Admitted id := by
  rw [Admits, exec_admitsRulepack hitems hreport, RulepackView.Admitted, RulepackView.lookup]
  change _ ↔ _ ∧ ∃ pack, (byText items).lookup id = some pack ∧ _
  cases (byText items).lookup id <;> simp

/-- Resolving is flattening what the resolver sees. -/
theorem exec_rulesOf (hitems : resolver.rulepacks.Gives items)
    (hreport : Admissions.Reportable project .rulepacks) (roots : List String)
    (referrer : String) (languages : List String) :
    ((rulesOf roots project referrer languages).runFrom resolver).1 =
      .ok ((view items project languages).flatten referrer roots).rules := by
  rw [runFrom_eq, rulesOf.eq_def]
  by_cases hroots : roots.isEmpty
  · simp [List.isEmpty_iff.1 hroots, RulepackView.flatten, RulepackView.start]
  · obtain ⟨admissions, log, hlists⟩ := exec_inAdmissions_lists hreport resolver []
    rw [if_neg hroots, exec_bind_ok hlists]
    by_cases hany : roots.any (view items project languages).admits
    · obtain ⟨s', hread⟩ := exec_rulepackItems (s := { resolver with admissions }) hitems log
      change (exec (if !roots.any (view items project languages).admits then _ else _) _).1 = _
      rw [hany, if_neg (by simp), exec_bind_ok hread]
      rfl
    · have hnone : ∀ root ∈ roots, (view items project languages).admits root = false := by
        simpa using hany
      change (exec (if !roots.any (view items project languages).admits then _ else _) _).1 = _
      rw [eq_false_of_ne_true hany, if_pos (by simp), RulepackView.flatten_of_not_admits hnone]
      rfl

def packIn (items : List (Value × Rulepack)) (id : String) : Option Rulepack :=
  (byText items).lookup id

def rulesIn (items : List (Value × Rulepack)) (id : String) : List String :=
  ((packIn items id).map (·.rules)).getD []

def parentsIn (items : List (Value × Rulepack)) (id : String) : List String :=
  ((packIn items id).map (·.extends)).getD []

/-- One rulepack extends another, and both are let in. -/
def Extends (resolver : Resolver) (items : List (Value × Rulepack)) (project : Option Project)
    (languages : List String) (id parent : String) : Prop :=
  resolver.Admits items project languages id ∧ parent ∈ parentsIn items id ∧
    resolver.Admits items project languages parent

theorem extends_eq (hitems : resolver.rulepacks.Gives items)
    (hreport : Admissions.Reportable project .rulepacks) (languages : List String) :
    resolver.Extends items project languages = (view items project languages).Inherits := by
  funext id parent
  rw [Extends, admits_iff hitems hreport, admits_iff hitems hreport]
  rfl

/--
The rules of some roots are those of `ids`: of the rulepacks that are reached
from the roots through rulepacks that are let in. A rulepack comes behind
those that it extends where these do not lead back to it, and further roots
only add rules at the end.
-/
structure Answer (resolver : Resolver) (items : List (Value × Rulepack))
    (project : Option Project) (languages : List String) (referrer : String)
    (roots ids : List String) : Prop where
  rules : ((rulesOf roots project referrer languages).runFrom resolver).1 =
    .ok (ids.flatMap (rulesIn items))
  nodup : ids.Nodup
  mem_iff : ∀ id, id ∈ ids ↔ ∃ root ∈ roots, resolver.Admits items project languages root ∧
    Relation.ReflTransGen (resolver.Extends items project languages) root id
  parents_first : ∀ id ∈ ids, ∀ parent ∈ ids, parent ∈ parentsIn items id →
    ¬ Relation.ReflTransGen (resolver.Extends items project languages) parent id →
    [parent, id].Sublist ids
  extended : ∀ more, ∃ further,
    ((rulesOf (roots ++ more) project referrer languages).runFrom resolver).1 =
      .ok (ids.flatMap (rulesIn items) ++ further)

theorem exists_answer (resolver : Resolver) (items : List (Value × Rulepack))
    (project : Option Project) (languages : List String) (referrer : String)
    (roots : List String) (hitems : resolver.rulepacks.Gives items)
    (hreport : Admissions.Reportable project .rulepacks) :
    ∃ ids, Answer resolver items project languages referrer roots ids := by
  obtain ⟨ids, hids, hrules⟩ :=
    RulepackView.exists_contribute_flatten (view items project languages) referrer roots
  have hsame : (view items project languages).rulesAt = rulesIn items := rfl
  refine ⟨ids, ?_, hids.nodup, ?_, ?_, ?_⟩
  · rw [exec_rulesOf hitems hreport, hrules, hsame]
  · intro id
    simp only [admits_iff hitems hreport, extends_eq hitems hreport]
    exact hids.mem_iff id
  · rw [extends_eq hitems hreport]
    exact hids.parents_first
  · intro more
    obtain ⟨further, hfurther⟩ :=
      RulepackView.rules_flatten_append (view items project languages) referrer roots more
    refine ⟨further, ?_⟩
    rw [exec_rulesOf hitems hreport, ← hfurther, hrules, hsame]

/-- `top` extends both sides, both sides extend `base`, and `base` extends `top` again. -/
def circlePacks : List (Value × Rulepack) :=
  let pack (id : String) (parents : List String) : Value × Rulepack :=
    (.text id, { (default : Rulepack) with
      id := .text id, rules := ["rule of " ++ id], «extends» := parents })
  [pack "top" ["left", "unknown", "right"], pack "left" ["base", "left"],
   pack "right" ["base", "outside"], pack "base" ["top"], pack "outside" []]

/-- A project that fills both lists of rulepacks. -/
def conflictingProject (id : Value) : Project :=
  { (default : Project) with
    id, aiTools := { (default : AiTools) with
      rulepacks := ⟨["top", "left", "right", "base"], ["left"]⟩ } }

def circleResolver : Resolver := ⟨⟨[], []⟩, .ready circlePacks⟩

theorem exists_answer_circle :
    circleResolver.rulepacks.Gives circlePacks ∧
      Admissions.Reportable (some (conflictingProject (.text "shop"))) .rulepacks ∧
      ∃ ids, Answer circleResolver circlePacks (some (conflictingProject (.text "shop")))
        ["python"] "agent a" ["right", "top"] ids := by
  have hreport : Admissions.Reportable (some (conflictingProject (.text "shop"))) .rulepacks := by
    rintro p ⟨⟩ -
    rfl
  exact ⟨rfl, hreport, exists_answer circleResolver circlePacks _ ["python"] "agent a"
    ["right", "top"] rfl hreport⟩

/-- A report keeps the id of a project, which a list cannot be. -/
theorem rulesOf_listed_id :
    ((rulesOf ["top"] (some (conflictingProject (.list [.text "shop"]))) "" []).runFrom
      circleResolver).1 = .error .wrongType := by
  rfl

end Resolver

end Playbook
