import Mathlib.Data.List.Induction
import Playbook.Proofs.Ledger
import Playbook.Proofs.Resolution.Rules
import Playbook.Proofs.Value

/-!
# Questions to one resolver

A resolver remembers which conflicts it reported and which rulepacks it read.
Neither shows in its answers: a question is answered in the course of a
sequence as it is at first, and as if the lists of the project were not in
conflict. A conflict is reported with the first question that meets it.
-/

namespace Playbook

open Work

def LogEntry.isError (entry : LogEntry) : Bool := entry.level == .error

/-! ## Lists without conflict -/

/-- The whitelist alone where both lists are filled. -/
def Admission.settled (lists : Admission) : Admission :=
  if lists.inConflict then { lists with blacklist := [] } else lists

theorem Admission.lets_settled (lists : Admission) : lists.settled.lets = lists.lets := by
  funext matched
  unfold settled
  split
  · rename_i hconflict
    have hfilled : (!lists.whitelist.isEmpty) = true := (Bool.and_eq_true_iff.1 hconflict).1
    rw [lets, lets, if_pos hfilled, if_pos hfilled]
  · rfl

/-- The same project with its blacklists emptied where it fills both lists of a category. -/
def Project.settled (project : Project) : Project :=
  let tools := project.aiTools
  { project with aiTools := { tools with
      agents := tools.agents.settled
      prompts := tools.prompts.settled
      rulepacks := tools.rulepacks.settled
      recipes := tools.recipes.settled } }

namespace Admissions

theorem listsOf_settled (project : Option Project) (category : Category) :
    (listsOf (project.map Project.settled) category).lets = (listsOf project category).lets := by
  cases project with
  | none => rfl
  | some p => cases category <;> exact Admission.lets_settled _

end Admissions

namespace Resolver

theorem view_settled (items : List (Value × Rulepack)) (project : Option Project)
    (languages : List String) :
    view items (project.map Project.settled) languages = view items project languages := by
  simp only [view.eq_def, Admissions.listsOf_settled]
  cases project <;> rfl

/-! ## Questions and replies -/

/-- What a resolver can be asked. -/
inductive Query where
  | included (category id : String) (project : Option Project)
  | agent (id : Value) (project : Option Project)
  | recipe (id : Value) (project : Option Project)
  | prompt (id : String) (path : Option String) (project : Option Project)
  | rulepack (id : String) (languages : List String) (project : Option Project)
  | rules (roots : List String) (referrer : String) (languages : List String)
      (project : Option Project)
  | agentRules (agent : Agent) (languages : List String) (project : Option Project)
  | projectRules (languages : List String) (project : Project)

inductive Reply where
  | decision (admitted : Bool)
  | rules (rules : List String)

namespace Query

def ask : Query → Work Resolver Reply
  | .included category id project =>
      .decision <$> inAdmissions (Admissions.admitsIn category id project)
  | .agent id project => .decision <$> inAdmissions (Admissions.admits .agents id project)
  | .recipe id project => .decision <$> inAdmissions (Admissions.admits .recipes id project)
  | .prompt id path project => .decision <$> inAdmissions (Admissions.admitsPrompt id project path)
  | .rulepack id languages project => .decision <$> admitsRulepack id project languages
  | .rules roots referrer languages project => .rules <$> rulesOf roots project referrer languages
  | .agentRules keeper languages project => .rules <$> Resolver.agentRules keeper project languages
  | .projectRules languages project => .rules <$> Resolver.projectRules project languages

def project? : Query → Option Project
  | .included _ _ project | .agent _ project | .recipe _ project | .prompt _ _ project
  | .rulepack _ _ project | .rules _ _ _ project | .agentRules _ _ project => project
  | .projectRules _ project => some project

/-- The same question about the project without conflicts. -/
def settled : Query → Query
  | .included category id project => .included category id (project.map Project.settled)
  | .agent id project => .agent id (project.map Project.settled)
  | .recipe id project => .recipe id (project.map Project.settled)
  | .prompt id path project => .prompt id path (project.map Project.settled)
  | .rulepack id languages project => .rulepack id languages (project.map Project.settled)
  | .rules roots referrer languages project =>
      .rules roots referrer languages (project.map Project.settled)
  | .agentRules keeper languages project =>
      .agentRules keeper languages (project.map Project.settled)
  | .projectRules languages project => .projectRules languages project.settled

/-- Rulepacks are looked at for roots, once the name of who refers to them is known. -/
def categoryFor (name : Attempt String) (roots : List String) : Option Category :=
  match name with
  | .ok _ => if roots.isEmpty then none else some .rulepacks
  | .error _ => none

/-- The category whose lists a question is decided by, if it comes to that. -/
def category? : Query → Option Category
  | .included category _ _ => Category.ofName? category
  | .agent .. => some .agents
  | .recipe .. => some .recipes
  | .prompt .. => some .prompts
  | .rulepack .. => some .rulepacks
  | .rules roots _ _ _ => categoryFor (.ok "") roots
  | .agentRules keeper _ _ => categoryFor keeper.id.shown keeper.rulepacks
  | .projectRules _ project => categoryFor project.id.shown project.aiTools.preferredRulepacks

/-- The conflict of lists that a question meets, with the id of the project. -/
def conflict? (query : Query) : Option (Value × Category) :=
  query.category?.bind (Admissions.conflict? query.project?)

/-- The id of the project is a text. -/
def NamesProject (query : Query) : Prop := ∀ project ∈ query.project?, project.id.isText = true

end Query

/-! ## Replies without a resolver -/

section Replies

variable (outcome : Attempt (List (Value × Rulepack))) (paths : List (String × String))

def rulepackReply (id : String) (languages : List String) (project : Option Project) :
    Attempt Bool :=
  if (Admissions.listsOf project .rulepacks).lets (· == id) then
    match project with
    | none => .ok true
    | some p => outcome.map fun items =>
        (((byText items).lookup id).map (stackAllows p languages)).getD true
  else .ok false

def rulesReply (roots : List String) (referrer : String) (languages : List String)
    (project : Option Project) : Attempt (List String) :=
  if roots.any (fun root => (Admissions.listsOf project .rulepacks).lets (· == root)) then
    outcome.map fun items => ((view items project languages).flatten referrer roots).rules
  else .ok []

def promptReply (id : String) (path : Option String) (project : Option Project) : Bool :=
  (Admissions.listsOf project .prompts).lets
    (promptMatches (Text.afterLast '/' id) (Admissions.firstFilled [path, paths.lookup id] id))

def listReply (category : Category) (id : Value) (project : Option Project) : Bool :=
  (Admissions.listsOf project category).lets fun entry => id.isAmong [entry]

def categoryReply (category : String) (id : String) (project : Option Project) : Attempt Bool :=
  match Category.ofName? category with
  | none => .error (.unknownCategory category)
  | some .prompts => .ok (promptReply paths id none project)
  | some other => .ok (listReply other (.text id) project)

/-- The rules of roots that someone with a name refers to, and further ones behind them. -/
def namedReply (name : Attempt String) (title : String) (roots further : List String)
    (languages : List String) (project : Option Project) : Attempt (List String) := do
  let name ← name
  let rules ← rulesReply outcome roots (title ++ name) languages project
  return rules ++ further

def Query.reply : Query → Attempt Reply
  | .included category id project => (categoryReply paths category id project).map .decision
  | .agent id project => .ok (.decision (listReply .agents id project))
  | .recipe id project => .ok (.decision (listReply .recipes id project))
  | .prompt id path project => .ok (.decision (promptReply paths id path project))
  | .rulepack id languages project => (rulepackReply outcome id languages project).map .decision
  | .rules roots referrer languages project =>
      (rulesReply outcome roots referrer languages project).map .rules
  | .agentRules keeper languages project =>
      (namedReply outcome keeper.id.shown "agent " keeper.rulepacks
        ((project.map (·.aiTools.customRules)).getD []) languages project).map .rules
  | .projectRules languages project =>
      (namedReply outcome project.id.shown "project " project.aiTools.preferredRulepacks
        project.aiTools.customRules languages (some project)).map .rules

theorem rulesReply_settled (roots : List String) (referrer : String) (languages : List String)
    (project : Option Project) :
    rulesReply outcome roots referrer languages (project.map Project.settled) =
      rulesReply outcome roots referrer languages project := by
  simp only [rulesReply, Admissions.listsOf_settled, view_settled]

theorem namedReply_settled (name : Attempt String) (title : String) (roots further : List String)
    (languages : List String) (project : Option Project) :
    namedReply outcome name title roots further languages (project.map Project.settled) =
      namedReply outcome name title roots further languages project := by
  simp only [namedReply, rulesReply_settled]

/-- Emptying the blacklists of lists in conflict changes no reply. -/
theorem Query.reply_settled (query : Query) :
    query.settled.reply outcome paths = query.reply outcome paths := by
  cases query with
  | included | agent | recipe | prompt =>
      simp only [settled, reply, categoryReply, promptReply, listReply,
        Admissions.listsOf_settled]
  | rulepack id languages project =>
      simp only [settled, reply, rulepackReply, Admissions.listsOf_settled]
      cases project <;> rfl
  | rules roots referrer languages project => simp only [settled, reply, rulesReply_settled]
  | agentRules keeper languages project =>
      simp only [settled, reply, namedReply_settled, Option.map_map]
      rfl
  | projectRules languages project =>
      exact congrArg (Except.map Reply.rules)
        (namedReply_settled outcome _ _ _ _ languages (some project))

end Replies

/-! ## What a resolver remembers -/

/-- The reports that were made when these conflicts had been met. -/
def reportsAfter (past : List (Value × Category)) : List (Value × Category) :=
  past.foldl (fun reported key => Admissions.keep reported (some key)) []

theorem reportsAfter_snoc (past : List (Value × Category)) (key : Value × Category) :
    reportsAfter (past ++ [key]) = Admissions.keep (reportsAfter past) (some key) := by
  rw [reportsAfter, List.foldl_append]
  rfl

/-- The reports of further conflicts. -/
def heard (past : List (Value × Category)) : List (Value × Category) → Log
  | [] => []
  | key :: asked => Admissions.reports (reportsAfter past) (some key) ++ heard (past ++ [key]) asked

theorem heard_append (past asked more : List (Value × Category)) :
    heard past (asked ++ more) = heard past asked ++ heard (past ++ asked) more := by
  induction asked generalizing past with
  | nil => simp [heard]
  | cons key asked ih => simp [heard, ih]

/--
The conflicts that a resolver has met. It gives rulepacks as at first, and has
reported each conflict once; it writes no other errors.
-/
def conflicts (outcome : Attempt (List (Value × Rulepack))) (paths : List (String × String)) :
    Ledger Resolver (Value × Category) where
  Holds past s := s.admissions = ⟨paths, reportsAfter past⟩ ∧ s.rulepacks.outcome = outcome ∧
    s.rulepacks.messages.filter LogEntry.isError = []
  Told past asked log := log.filter LogEntry.isError = heard past asked
  told_nil _ := rfl
  told_append hlog hlater := by rw [List.filter_append, hlog, hlater, heard_append]

variable {outcome : Attempt (List (Value × Rulepack))} {paths : List (String × String)}
variable {project : Option Project} {languages : List String} {α : Type}

theorem records_inAdmissions {work : Work Admissions α} {result : Attempt α}
    {conflict : Option (Value × Category)}
    (h : ∀ reported log, exec work (⟨paths, reported⟩, log) =
      (result, ⟨paths, Admissions.keep reported conflict⟩,
        log ++ Admissions.reports reported conflict)) :
    (conflicts outcome paths).Records (inAdmissions work) result conflict.toList := by
  rintro past ⟨admissions, shelf⟩ log ⟨rfl, hshelf⟩
  refine ⟨⟨⟨paths, Admissions.keep (reportsAfter past) conflict⟩, shelf⟩,
    Admissions.reports (reportsAfter past) conflict, ?_, ⟨?_, hshelf⟩, ?_⟩
  · rw [inAdmissions, exec_within, h]
  · cases conflict with
    | none => simp [Admissions.keep]
    | some key => rw [Option.toList, reportsAfter_snoc]
  · cases conflict with
    | none => rfl
    | some key =>
        simp only [conflicts, heard, Option.toList, List.append_nil, Admissions.reports]
        split <;> simp [LogEntry.isError]

theorem records_lists {category : Category} (h : Admissions.Reportable project category) :
    (conflicts outcome paths).Records (inAdmissions (Admissions.lists project category))
      (.ok (Admissions.listsOf project category))
      (Admissions.conflict? project category).toList :=
  records_inAdmissions fun _ _ => Admissions.exec_lists_eq h _ _

theorem records_admits {category : Category} (h : Admissions.Reportable project category)
    (id : Value) :
    (conflicts outcome paths).Records (inAdmissions (Admissions.admits category id project))
      (.ok (listReply category id project)) (Admissions.conflict? project category).toList :=
  records_inAdmissions fun _ _ => Admissions.exec_admits h id _ _

theorem records_admitsPrompt (h : Admissions.Reportable project .prompts) (id : String)
    (path : Option String) :
    (conflicts outcome paths).Records (inAdmissions (Admissions.admitsPrompt id project path))
      (.ok (promptReply paths id path project))
      (Admissions.conflict? project .prompts).toList := by
  refine records_inAdmissions fun reported log => ?_
  rw [Admissions.admitsPrompt, exec_bind_ok (Admissions.exec_lists_eq h _ _),
    exec_bind_ok (exec_state _ _)]
  rfl

theorem records_rulepackItems :
    (conflicts outcome paths).Records rulepackItems outcome [] := by
  rintro past ⟨admissions, shelf⟩ log ⟨rfl, rfl, hquiet⟩
  obtain ⟨other, hexec, hsame, hrest⟩ := shelf.exec_items_outcome log
  refine ⟨⟨_, other⟩, shelf.messages, by rw [rulepackItems, exec_within, hexec],
    ⟨by rw [List.append_nil], hsame, ?_⟩, hquiet⟩
  rcases hrest with hnone | rfl
  · change other.messages.filter _ = []
    rw [hnone]
    rfl
  · exact hquiet

theorem records_admitsIn {category : String} (id : String)
    (h : ∀ found, Category.ofName? category = some found → Admissions.Reportable project found) :
    (conflicts outcome paths).Records (inAdmissions (Admissions.admitsIn category id project))
      (categoryReply paths category id project)
      ((Category.ofName? category).bind (Admissions.conflict? project)).toList := by
  unfold Admissions.admitsIn categoryReply
  cases hfound : Category.ofName? category with
  | none =>
      exact records_inAdmissions fun reported log => by
        simp [Admissions.keep, Admissions.reports]
  | some found =>
      cases found with
      | prompts => exact records_admitsPrompt (h _ hfound) id none
      | agents | rulepacks | recipes => exact records_admits (h _ hfound) (.text id)

theorem records_admitsRulepack (h : Admissions.Reportable project .rulepacks) (id : String) :
    (conflicts outcome paths).Records (admitsRulepack id project languages)
      (rulepackReply outcome id languages project)
      (Admissions.conflict? project .rulepacks).toList := by
  refine (records_admits h (.text id)).bind_quiet ?_
  rw [listReply, Admissions.text_isAmong]
  unfold rulepackReply
  cases hlisted : (Admissions.listsOf project .rulepacks).lets (· == id) with
  | false => exact .pure false
  | true =>
      cases project with
      | none => exact .pure true
      | some p =>
          cases outcome with
          | error fault => exact records_rulepackItems.bind_error
          | ok items =>
              refine records_rulepackItems.bind_quiet ?_
              cases hfound : (byText items).lookup id <;> simpa [Except.map, hfound] using .pure _

theorem filter_isError_flatten (view : RulepackView) (referrer : String) (roots : List String) :
    (view.flatten referrer roots).log.filter LogEntry.isError = [] := by
  obtain ⟨_, reports, search⟩ := RulepackView.exists_searches_flatten view referrer roots
  rw [search.log_eq, List.filter_eq_nil_iff]
  intro entry hentry
  obtain ⟨report, -, rfl⟩ := List.mem_map.1 (by simpa [RulepackView.start] using hentry)
  cases report <;> exact Bool.false_ne_true

theorem records_rulesOf (h : Admissions.Reportable project .rulepacks) (roots : List String)
    (referrer : String) :
    (conflicts outcome paths).Records (rulesOf roots project referrer languages)
      (rulesReply outcome roots referrer languages project)
      ((Query.categoryFor (.ok "") roots).bind (Admissions.conflict? project)).toList := by
  rw [rulesOf.eq_def, rulesReply]
  cases roots with
  | nil => exact .pure []
  | cons root roots =>
      refine (records_lists h).bind_quiet ?_
      cases hany : (root :: roots).any
          fun root => (Admissions.listsOf project .rulepacks).lets (· == root) with
      | false =>
          rw [if_pos (by simp [hany]), if_neg Bool.false_ne_true]
          exact .pure []
      | true =>
          rw [if_neg (by simp [hany]), if_pos rfl]
          cases outcome with
          | error fault => exact records_rulepackItems.bind_error
          | ok items =>
              refine records_rulepackItems.bind_quiet ?_
              refine (Ledger.Records.tell fun past => ?_).bind_quiet (.pure _)
              exact filter_isError_flatten (view items project languages) referrer _

theorem records_named (h : Admissions.Reportable project .rulepacks) (name : Attempt String)
    (title : String) (roots further : List String) :
    (conflicts outcome paths).Records
      (do
        let name ← Work.attempt name
        let rules ← rulesOf roots project (title ++ name) languages
        return rules ++ further)
      (namedReply outcome name title roots further languages project)
      ((Query.categoryFor name roots).bind (Admissions.conflict? project)).toList := by
  refine .attempt_bind ?_ ?_
  · rintro name rfl
    have hrules : (conflicts outcome paths).Records
        (rulesOf roots project (title ++ name) languages) _ _ :=
      records_rulesOf h roots (title ++ name)
    change Ledger.Records _ _ (rulesReply outcome roots (title ++ name) languages project >>=
      fun rules => pure (rules ++ further)) _
    cases hreply : rulesReply outcome roots (title ++ name) languages project with
    | error fault =>
        rw [hreply] at hrules
        exact hrules.bind_error
    | ok rules =>
        rw [hreply] at hrules
        exact hrules.bind_quiet (.pure _)
  · rintro fault rfl
    exact ⟨rfl, rfl⟩

/-- Every question is answered from any state as by its reply, and meets its conflict. -/
theorem Query.records_ask (query : Query) (h : query.NamesProject) :
    (conflicts outcome paths).Records query.ask (query.reply outcome paths)
      query.conflict?.toList := by
  have hreport (category : Category) : Admissions.Reportable query.project? category := by
    intro project hproject _
    have htext := h project hproject
    cases hid : project.id <;> simp_all [Value.isText, Value.canBeKey]
  cases query with
  | included category id project => exact (records_admitsIn id fun found _ => hreport found).map _
  | agent id project => exact (records_admits (hreport .agents) id).map _
  | recipe id project => exact (records_admits (hreport .recipes) id).map _
  | prompt id path project => exact (records_admitsPrompt (hreport .prompts) id path).map _
  | rulepack id languages project => exact (records_admitsRulepack (hreport .rulepacks) id).map _
  | rules roots referrer languages project =>
      exact (records_rulesOf (hreport .rulepacks) roots referrer).map _
  | agentRules keeper languages project =>
      exact (records_named (hreport .rulepacks) keeper.id.shown _ keeper.rulepacks _).map _
  | projectRules languages project =>
      exact (records_named (hreport .rulepacks) project.id.shown _ _ _).map _

/-! ## Answers in the course of a sequence -/

theorem isReported_iff {reported : List (Value × Category)} {key : Value × Category}
    (hkey : key.1.isText = true) :
    Admissions.isReported reported key.1 key.2 = true ↔ key ∈ reported := by
  obtain ⟨id, category⟩ := key
  have hsame (other : Value × Category) :
      (other.1.same id && other.2 == category) = true ↔ other = (id, category) := by
    cases id with
    | text s =>
        rw [Bool.and_eq_true, beq_iff_eq, Prod.ext_iff]
        exact and_congr_left fun _ => ⟨Value.eq_of_same_text, fun h => h ▸ Value.same_refl _⟩
    | _ => cases hkey
  rw [Admissions.isReported, List.any_eq_true]
  exact ⟨fun ⟨other, hother, h⟩ => (hsame other).1 h ▸ hother, fun h => ⟨_, h, (hsame _).2 rfl⟩⟩

theorem mem_reportsAfter {past : List (Value × Category)}
    (hpast : ∀ key ∈ past, key.1.isText = true) (key : Value × Category) :
    key ∈ reportsAfter past ↔ key ∈ past := by
  induction past using List.reverseRecOn generalizing key with
  | nil => rfl
  | append_singleton past last ih =>
      have hearlier := ih fun other hother => hpast other (List.mem_append_left _ hother)
      have hlast : Admissions.isReported (reportsAfter past) last.1 last.2 = true ↔ _ :=
        isReported_iff (hpast last (by simp))
      rw [reportsAfter_snoc, Admissions.keep, List.mem_append, List.mem_singleton]
      split
      · rename_i hreported
        have hmet := (hearlier last).1 (hlast.1 hreported)
        rw [hearlier]
        exact ⟨.inl, fun h => h.elim id (· ▸ hmet)⟩
      · rw [List.mem_append, List.mem_singleton, hearlier]

theorem isReported_reportsAfter {past : List (Value × Category)} {key : Value × Category}
    (hpast : ∀ other ∈ past, other.1.isText = true) (hkey : key.1.isText = true) :
    Admissions.isReported (reportsAfter past) key.1 key.2 = true ↔ key ∈ past :=
  (isReported_iff hkey).trans (mem_reportsAfter hpast key)

theorem heard_of_mem {past : List (Value × Category)} {conflict : Option (Value × Category)}
    (hpast : ∀ key ∈ past, key.1.isText = true) (hmet : ∀ key ∈ conflict, key ∈ past) :
    heard past conflict.toList = [] := by
  cases conflict with
  | none => rfl
  | some key =>
      have hkey := hmet key rfl
      simp [heard, Admissions.reports, (isReported_reportsAfter hpast (hpast key hkey)).2 hkey]

theorem heard_of_not_mem {past : List (Value × Category)} {key : Value × Category}
    (hpast : ∀ other ∈ past, other.1.isText = true) (hkey : key.1.isText = true)
    (hnew : key ∉ past) :
    heard past [key] = [⟨.error, Admissions.conflictMessage key.1 key.2⟩] := by
  simp [heard, Admissions.reports, mt (isReported_reportsAfter hpast hkey).1 hnew]

theorem Query.NamesProject.isText {query : Query} (h : query.NamesProject)
    {key : Value × Category} (hkey : key ∈ query.conflict?) : key.1.isText = true := by
  obtain ⟨category, -, hkey⟩ := Option.bind_eq_some_iff.1 hkey
  obtain ⟨project, hproject, hkey⟩ := Option.bind_eq_some_iff.1 hkey
  split at hkey
  · cases hkey
    exact h project hproject
  · cases hkey

theorem Query.NamesProject.settled {query : Query} (h : query.NamesProject) :
    query.settled.NamesProject := by
  have hmap {project : Option Project} (h : ∀ p ∈ project, p.id.isText = true) :
      ∀ p ∈ project.map Project.settled, p.id.isText = true := by
    intro p hp
    obtain ⟨q, hq, rfl⟩ := Option.map_eq_some_iff.1 hp
    exact h q hq
  cases query with
  | projectRules languages project => exact hmap h
  | _ => exact hmap h

/--
What one hears when a question comes behind others: the answer that is given
at first, for the project as it is and without its conflicts, and an error for
a conflict that no question has met before.
-/
structure Heard (fresh : Resolver) (before : List Query) (query : Query)
    (answer : Attempt Reply) (log : Log) : Prop where
  first : answer = (query.ask.runFrom fresh).1
  settled : answer = (query.settled.ask.runFrom fresh).1
  reported : ∀ key ∈ query.conflict?, key ∉ before.filterMap Query.conflict? →
    log.filter LogEntry.isError = [⟨.error, Admissions.conflictMessage key.1 key.2⟩]
  silent : (∀ key ∈ query.conflict?, key ∈ before.filterMap Query.conflict?) →
    log.filter LogEntry.isError = []

theorem exists_heard_inTurn {paths : List (String × String)} {shelf : Shelf Rulepack}
    {before after : List Query} {query : Query}
    (hshelf : shelf.messages.filter LogEntry.isError = [])
    (hnames : ∀ other ∈ before ++ query :: after, other.NamesProject) :
    ∃ answer log,
      (inTurn ⟨⟨paths, []⟩, shelf⟩ ((before ++ query :: after).map Query.ask)).1[before.length]? =
        some (answer, log) ∧
      Heard ⟨⟨paths, []⟩, shelf⟩ before query answer log := by
  have hfresh : (conflicts shelf.outcome paths).Holds [] ⟨⟨paths, []⟩, shelf⟩ := ⟨rfl, rfl, hshelf⟩
  have hquery : query.NamesProject := hnames query (by simp)
  obtain ⟨log, hlog, htold⟩ := Ledger.exists_told_inTurn
    (fun (other : Query) hother => other.records_ask (hnames other hother)) hfresh
  have hmet : before.flatMap (fun other => other.conflict?.toList) =
      before.filterMap Query.conflict? := by
    rw [List.filterMap_eq_flatMap_toList]
  rw [List.nil_append, hmet] at htold
  have hpast : ∀ key ∈ before.filterMap Query.conflict?, key.1.isText = true := by
    intro key hkey
    obtain ⟨other, hother, hkey⟩ := List.mem_filterMap.1 hkey
    exact (hnames other (List.mem_append_left _ hother)).isText hkey
  refine ⟨_, log, hlog, ?_, ?_, ?_, ?_⟩
  · exact ((query.records_ask hquery).runFrom_eq hfresh).symm
  · rw [(query.settled.records_ask hquery.settled).runFrom_eq hfresh, Query.reply_settled]
  · intro key hkey hnew
    rw [hkey] at htold
    exact htold.trans (heard_of_not_mem hpast (hquery.isText hkey) hnew)
  · exact fun hold => htold.trans (heard_of_mem hpast hold)

/-- A question that meets a conflict, and one that meets it again. -/
def decision : Query := .rulepack "left" [] (some (conflictingProject (.text "shop")))

def resolution : Query :=
  .rules ["right", "top"] "agent a" ["python"] (some (conflictingProject (.text "shop")))

theorem exists_heard_inTurn_again :
    circleResolver.rulepacks.messages.filter LogEntry.isError = [] ∧
      (∀ query ∈ [decision, resolution], query.NamesProject) ∧
      ∃ answer log,
        (inTurn circleResolver ([decision, resolution].map Query.ask)).1[1]? =
          some (answer, log) ∧
        Heard circleResolver [decision] resolution answer log := by
  have hnames : ∀ query ∈ [decision] ++ resolution :: [], query.NamesProject := by
    intro query hquery project hproject
    rcases List.mem_cons.1 hquery with rfl | hquery
    · cases hproject
      rfl
    · cases List.mem_singleton.1 hquery
      cases hproject
      rfl
  exact ⟨rfl, hnames, exists_heard_inTurn rfl hnames⟩

end Resolver

end Playbook
