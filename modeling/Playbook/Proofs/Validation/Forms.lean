import Playbook.Proofs.Validation.Features
import Playbook.Proofs.Validation.Rejection

/-!
# Forms of ids and versions

An id is made of runs of small letters and digits with single hyphens between
them, a version of three numbers with points between them. One line feed at
the end does not count, and a number may have digits of any script. The check
of a document reports its id and its version if and only if they have no such
form.
-/

namespace Playbook

namespace Validation

/-! ## Joined runs -/

variable {separator : Char} {p : Char → Bool} {runs : List (List Char)} {text : List Char}

/-- A text is made of some runs of characters of a class, with one separator between two. -/
structure Joins (separator : Char) (p : Char → Bool) (runs : List (List Char))
    (text : List Char) : Prop where
  some : runs ≠ []
  filled : ∀ run ∈ runs, run ≠ []
  inClass : ∀ run ∈ runs, ∀ c ∈ run, p c = true
  text_eq : text = [separator].intercalate runs

theorem joins_iff (hseparator : p separator = false) :
    Joins separator p runs text ↔ Text.pieces separator text = runs ∧
      runs.all (fun run => !run.isEmpty && run.all p) = true := by
  have hall : runs.all (fun run => !run.isEmpty && run.all p) = true ↔
      (∀ run ∈ runs, run ≠ []) ∧ ∀ run ∈ runs, ∀ c ∈ run, p c = true := by
    simp [forall_and]
  rw [hall, Text.pieces_eq_splitOn]
  constructor
  · rintro ⟨hsome, hfilled, hclass, rfl⟩
    refine ⟨List.splitOn_intercalate separator (fun run hrun hmem => ?_) hsome, hfilled, hclass⟩
    exact Bool.false_ne_true (hseparator.symm.trans (hclass run hrun separator hmem))
  · rintro ⟨rfl, hfilled, hclass⟩
    refine ⟨List.splitOnP_ne_nil _ _, hfilled, hclass, ?_⟩
    exact (List.intercalate_splitOn separator).symm

theorem Joins.mem (h : Joins separator p runs text) (hseparator : p separator = false) {c : Char}
    (hc : c ∈ text) : c = separator ∨ p c = true := by
  obtain ⟨rfl, -⟩ := (joins_iff hseparator).1 h
  refine (Text.mem_pieces separator hc).imp_right ?_
  rintro ⟨piece, hpiece, hmem⟩
  exact h.inClass piece hpiece c hmem

/-- A form that has no line feed is looked for in front of one at the end. -/
theorem withoutLineEnd_iff {P : List Char → Prop} (h : ∀ text, P text → '\n' ∉ text)
    (text : List Char) :
    P (withoutLineEnd text) ↔ P text ∨ ∃ front, P front ∧ text = front ++ ['\n'] := by
  rw [withoutLineEnd]
  split
  · rename_i hline
    obtain ⟨front, rfl⟩ := List.getLast?_eq_some_iff.1 (by simpa using hline)
    rw [List.dropLast_concat]
    constructor
    · exact fun hfront => .inr ⟨front, hfront, rfl⟩
    · rintro (hwhole | ⟨other, hother, heq⟩)
      · exact absurd (by simp) (h _ hwhole)
      · rwa [(List.append_inj' heq rfl).1]
  · rename_i hline
    refine ⟨.inl, fun hform => hform.resolve_right ?_⟩
    rintro ⟨front, -, rfl⟩
    simp at hline

/-! ## Ids and versions -/

/-- Runs of small letters and digits with single hyphens between them. -/
def KebabCase (text : List Char) : Prop := ∃ runs, Joins '-' isSmallOrDigit runs text

/-- Three numbers with points between them. -/
def ThreeNumbers (text : List Char) : Prop :=
  ∃ runs, runs.length = 3 ∧ Joins '.' Text.isDigit runs text

theorem isKebabCase_iff (id : String) : isKebabCase id = true ↔
    KebabCase id.toList ∨ ∃ front, KebabCase front ∧ id.toList = front ++ ['\n'] := by
  have hform (text : List Char) : KebabCase text ↔
      ((Text.pieces '-' text).all fun run => !run.isEmpty && run.all isSmallOrDigit) = true := by
    simp [KebabCase, joins_iff (show isSmallOrDigit '-' = false from rfl)]
  rw [isKebabCase, ← hform]
  refine withoutLineEnd_iff (fun text => ?_) _
  rintro ⟨runs, hruns⟩ hline
  rcases hruns.mem rfl hline with h | h <;> cases h

theorem isVersion_iff (version : String) : isVersion version = true ↔
    ThreeNumbers version.toList ∨
      ∃ front, ThreeNumbers front ∧ version.toList = front ++ ['\n'] := by
  have hpoint : Text.isDigit '.' = false := by decide
  have hform (text : List Char) : ThreeNumbers text ↔
      ((Text.pieces '.' text).length == 3 && (Text.pieces '.' text).all fun part =>
        !part.isEmpty && part.all Text.isDigit) = true := by
    simp [ThreeNumbers, joins_iff hpoint]
  rw [isVersion, ← hform]
  refine withoutLineEnd_iff (fun text => ?_) _
  rintro ⟨runs, -, hruns⟩ hline
  rcases hruns.mem hpoint hline with h | h
  · cases h
  · exact Bool.false_ne_true ((show Text.isDigit '\n' = false by decide).symm.trans h)

/-! ## What a check adds -/

variable {α : Type} {step next : Checking Unit} {Q R : List Issue → Prop} {kind : ManifestKind}

/-- A step that comes to an end and adds errors of which `Q` holds. -/
def Adds (step : Checking Unit) (Q : List Issue → Prop) : Prop :=
  ∀ c, ∃ c' added, step.run c = .ok ((), c') ∧ c'.report.errors = c.report.errors ++ added ∧
    Q added

namespace Adds

theorem mono (h : Adds step Q) (himp : ∀ added, Q added → R added) : Adds step R := by
  intro c
  obtain ⟨c', added, hrun, herrors, hadded⟩ := h c
  exact ⟨c', added, hrun, herrors, himp added hadded⟩

theorem nothing : Adds (pure ()) fun added => added = [] :=
  fun c => ⟨c, [], rfl, (List.append_nil _).symm, rfl⟩

theorem countChecked : Adds countChecked fun added => added = [] :=
  fun _ => ⟨_, [], rfl, (List.append_nil _).symm, rfl⟩

theorem addError (code : IssueCode) (location problem fix : String) (path : Path) :
    Adds (addError code location problem fix path) fun added =>
      added = [⟨code.name, location, problem, fix, path.text⟩] :=
  fun _ => ⟨_, _, rfl, rfl, rfl⟩

theorem andThen (h : Adds step Q) (h' : Adds next R) :
    Adds (step >>= fun _ => next) fun added =>
      ∃ first rest, added = first ++ rest ∧ Q first ∧ R rest := by
  intro c
  obtain ⟨c', first, hrun, herrors, hfirst⟩ := h c
  obtain ⟨c'', rest, hrun', herrors', hrest⟩ := h' c'
  refine ⟨c'', first ++ rest, ?_, by rw [herrors', herrors, List.append_assoc],
    first, rest, rfl, hfirst, hrest⟩
  rw [StateT.run_bind, hrun]
  exact hrun'

theorem attempt {result : Attempt α} {a : α} {next : α → Checking Unit} (hresult : result = .ok a)
    (h : Adds (next a) Q) : Adds ((result : Checking α) >>= next) Q := by
  subst hresult
  exact h

theorem documentsOf {next : Documents → Checking Unit} (h : ∀ documents, Adds (next documents) Q) :
    Adds (documentsOf kind >>= next) Q :=
  fun c => h (c.documents kind) c

theorem forM {ι : Type} {l : List ι} {f : ι → Checking Unit} {p : Issue → Prop}
    (h : ∀ x ∈ l, Adds (f x) fun added => ∀ issue ∈ added, p issue) :
    Adds (l.forM f) fun added => ∀ issue ∈ added, p issue := by
  induction l with
  | nil => exact nothing.mono (by simp)
  | cons x l ih =>
      refine ((h x List.mem_cons_self).andThen
        (ih fun y hy => h y (List.mem_cons_of_mem _ hy))).mono ?_
      rintro _ ⟨first, rest, rfl, hfirst, hrest⟩ issue hissue
      exact (List.mem_append.1 hissue).elim (hfirst issue) (hrest issue)

end Adds

variable {path : Path} {v : Value} {id version location : String} {registered : Bool}

theorem adds_checkSchema {errors : List (String × String)}
    (herrors : kind.schemaErrors v = .ok errors) :
    Adds (checkSchema kind location path v) fun added =>
      ∀ issue ∈ added, issue.code = IssueCode.schema.name := by
  refine Adds.attempt herrors (Adds.forM fun error _ => (Adds.addError _ _ _ _ _).mono ?_)
  rintro _ rfl
  simp

theorem adds_register :
    Adds (register kind id location path v) fun added =>
      ∀ issue ∈ added, issue.code = IssueCode.duplicateId.name := by
  refine Adds.documentsOf fun documents => ?_
  split
  · refine (Adds.addError _ _ _ _ _).mono ?_
    rintro _ rfl
    simp
  · exact fun _ => ⟨_, [], rfl, (List.append_nil _).symm, by simp⟩

/-- The error for an id that has no proper form. -/
def idIssue (location id : String) (path : Path) : Issue :=
  ⟨IssueCode.idFormat.name, location, "id '" ++ id ++ "' is not kebab-case",
    "Use lowercase letters, digits and single hyphens", path.text⟩

/-- The error for a version that has no proper form. -/
def versionIssue (location version : String) (path : Path) : Issue :=
  ⟨IssueCode.versionFormat.name, location, "version '" ++ version ++ "' is not MAJOR.MINOR.PATCH",
    "Use a semantic version such as 1.0.0", path.text⟩

def reportedUnless (proper : Bool) (issue : Issue) : List Issue := if proper then [] else [issue]

theorem mem_reportedUnless {proper : Bool} {issue other : Issue} :
    other ∈ reportedUnless proper issue ↔ ¬ proper = true ∧ other = issue := by
  cases proper <;> simp [reportedUnless]

theorem code_of_mem_reportedUnless {proper : Bool} {issue : Issue} :
    ∀ other ∈ reportedUnless proper issue, other.code = issue.code :=
  fun _ hmem => congrArg Issue.code (mem_reportedUnless.1 hmem).2

theorem forall_code_ne {code other : String} {issues : List Issue}
    (h : ∀ issue ∈ issues, issue.code = code) (hne : code ≠ other) :
    ∀ issue ∈ issues, issue.code ≠ other :=
  fun issue hissue heq => hne ((h issue hissue).symm.trans heq)

/-- The issues of one code among issues of other codes. -/
theorem mem_and_code_iff {code : String} {front middle rest : List Issue} {issue : Issue}
    (hfront : ∀ i ∈ front, i.code ≠ code) (hmiddle : ∀ i ∈ middle, i.code = code)
    (hrest : ∀ i ∈ rest, i.code ≠ code) :
    issue ∈ front ++ middle ++ rest ∧ issue.code = code ↔ issue ∈ middle := by
  rw [List.mem_append, List.mem_append]
  constructor
  · rintro ⟨(hmem | hmem) | hmem, hcode⟩
    · exact absurd hcode (hfront issue hmem)
    · exact hmem
    · exact absurd hcode (hrest issue hmem)
  · exact fun hmem => ⟨.inl (.inr hmem), hmiddle issue hmem⟩

theorem adds_checkForms (hfilled : id ≠ "") (hversion : field v "version" = .text version) :
    Adds (checkForms id location path v) fun added =>
      added = reportedUnless (isKebabCase id) (idIssue location id path) ++
        reportedUnless (isVersion version) (versionIssue location version path) := by
  have hrest : Adds (do
      let version := field v "version"
      if !version.isNull then
        let shown ← (version.shown : Attempt String)
        if !isVersion shown then
          addError .versionFormat location ("version '" ++ shown ++ "' is not MAJOR.MINOR.PATCH")
            "Use a semantic version such as 1.0.0" path) fun added =>
        added = reportedUnless (isVersion version) (versionIssue location version path) := by
    rw [hversion]
    refine Adds.attempt (a := version) rfl ?_
    unfold reportedUnless
    cases isVersion version with
    | true => exact Adds.nothing
    | false => exact Adds.addError _ _ _ _ _
  have hid : id.isEmpty = false := by simpa [String.isEmpty_iff] using hfilled
  unfold checkForms
  rw [hid]
  cases isKebabCase id with
  | true => exact hrest
  | false =>
      refine ((Adds.addError _ _ _ _ _).andThen hrest).mono ?_
      rintro _ ⟨_, _, rfl, rfl, rfl⟩
      rfl

theorem adds_checkDocument {errors : List (String × String)} (hid : field v "id" = .text id)
    (hfilled : id ≠ "") (hversion : field v "version" = .text version)
    (herrors : kind.schemaErrors v = .ok errors) :
    Adds (checkDocument kind path v registered) fun added =>
      ∃ schema duplicates, added = schema ++
          reportedUnless (isKebabCase id) (idIssue (locationOf kind id path) id path) ++
          reportedUnless (isVersion version)
            (versionIssue (locationOf kind id path) version path) ++ duplicates ∧
      (∀ issue ∈ schema, issue.code = IssueCode.schema.name) ∧
      ∀ issue ∈ duplicates, issue.code = IssueCode.duplicateId.name := by
  have hregister : Adds (if !id.isEmpty && registered then
      register kind id (locationOf kind id path) path v else pure ()) fun added =>
        ∀ issue ∈ added, issue.code = IssueCode.duplicateId.name := by
    split
    · exact adds_register
    · exact Adds.nothing.mono (by simp)
  refine (Adds.countChecked.andThen (Adds.attempt (idText_of_field hid)
    ((adds_checkSchema herrors).andThen ((adds_checkForms hfilled hversion).andThen
      hregister)))).mono ?_
  rintro _ ⟨_, _, rfl, rfl, schema, _, rfl, hschema, _, duplicates, rfl, rfl, hduplicates⟩
  exact ⟨schema, duplicates, by simp, hschema, hduplicates⟩

/--
The check of a document ends with the fault of its schema check, if that has
one, and else reports the id and the version exactly where they have no proper
form, whatever it reports besides.
-/
theorem checkDocument_forms (kind : ManifestKind) (path : Path) (registered : Bool)
    (hid : field v "id" = .text id) (hfilled : id ≠ "")
    (hversion : field v "version" = .text version) (c : Check) :
    (∀ fault, kind.schemaErrors v = .error fault →
      (checkDocument kind path v registered).run c = .error fault) ∧
    (v.Short → ∃ errors, kind.schemaErrors v = .ok errors) ∧
    ∀ errors, kind.schemaErrors v = .ok errors →
      ∃ c' added, (checkDocument kind path v registered).run c = .ok ((), c') ∧
        c'.report.errors = c.report.errors ++ added ∧
        (∀ issue, issue ∈ added ∧ issue.code = "ID_FORMAT" ↔
          ¬ (KebabCase id.toList ∨ ∃ front, KebabCase front ∧ id.toList = front ++ ['\n']) ∧
            issue = ⟨"ID_FORMAT", kind.name ++ ":" ++ id, "id '" ++ id ++ "' is not kebab-case",
              "Use lowercase letters, digits and single hyphens", path.text⟩) ∧
        ∀ issue, issue ∈ added ∧ issue.code = "VERSION_FORMAT" ↔
          ¬ (ThreeNumbers version.toList ∨
            ∃ front, ThreeNumbers front ∧ version.toList = front ++ ['\n']) ∧
            issue = ⟨"VERSION_FORMAT", kind.name ++ ":" ++ id,
              "version '" ++ version ++ "' is not MAJOR.MINOR.PATCH",
              "Use a semantic version such as 1.0.0", path.text⟩ := by
  refine ⟨fun fault hfault => ?_, fun short => ManifestKind.exists_schemaErrors short kind,
    fun errors herrors => ?_⟩
  · simp only [checkDocument, checkSchema, idText_of_field hid, hfault]
    rfl
  · obtain ⟨c', _, hrun, herrors', schema, duplicates, rfl, hschema, hduplicates⟩ :=
      adds_checkDocument hid hfilled hversion herrors c
    have hlocation : locationOf kind id path = kind.name ++ ":" ++ id := by
      rw [locationOf, if_neg (by simpa [String.isEmpty_iff] using hfilled)]
    rw [hlocation] at herrors'
    have hids (location : String) : ∀ issue ∈ reportedUnless (isKebabCase id)
        (idIssue location id path), issue.code = "ID_FORMAT" := code_of_mem_reportedUnless
    have hversions (location : String) : ∀ issue ∈ reportedUnless (isVersion version)
        (versionIssue location version path), issue.code = "VERSION_FORMAT" :=
      code_of_mem_reportedUnless
    refine ⟨c', _, hrun, herrors', fun issue => ?_, fun issue => ?_⟩
    · rw [← isKebabCase_iff, List.append_assoc]
      refine (mem_and_code_iff (forall_code_ne hschema (by decide)) (hids _) ?_).trans
        mem_reportedUnless
      exact List.forall_mem_append.2
        ⟨forall_code_ne (hversions _) (by decide), forall_code_ne hduplicates (by decide)⟩
    · rw [← isVersion_iff]
      refine (mem_and_code_iff ?_ (hversions _) (forall_code_ne hduplicates (by decide))).trans
        mem_reportedUnless
      exact List.forall_mem_append.2
        ⟨forall_code_ne hschema (by decide), forall_code_ne (hids _) (by decide)⟩

/-- An agent whose id ends with a line feed and whose version has foreign digits. -/
def oddAgent : Value := .mapping
  [(.text "id", .text "coder\n"), (.text "purpose", .text "Write code."),
   (.text "version", .text "१.२.३")]

/-- Neither is reported. -/
theorem checkDocument_forms_oddAgent :
    ¬ KebabCase "coder\n".toList ∧
    field oddAgent "id" = .text "coder\n" ∧ field oddAgent "version" = .text "१.२.३" ∧
    ∀ c, ∃ c' added,
      (checkDocument .agent ⟨.root, ["coder.yml"]⟩ oddAgent true).run c = .ok ((), c') ∧
        c'.report.errors = c.report.errors ++ added ∧
        ∀ issue ∈ added, issue.code ≠ "ID_FORMAT" ∧ issue.code ≠ "VERSION_FORMAT" := by
  have hid : field oddAgent "id" = .text "coder\n" := by
    simp [oddAgent, field, Value.opened, Entries.get?, Entries.find?, Value.same, Value.samePlain]
  have hversion : field oddAgent "version" = .text "१.२.३" := by
    simp [oddAgent, field, Value.opened, Entries.get?, Entries.find?, Value.same, Value.samePlain]
  refine ⟨?_, hid, hversion, fun c => ?_⟩
  · rintro ⟨runs, hruns⟩
    rcases hruns.mem rfl (c := '\n') (by decide) with h | h <;> cases h
  · obtain ⟨-, hshort, hforms⟩ :=
      checkDocument_forms .agent ⟨.root, ["coder.yml"]⟩ true hid (by decide) hversion c
    obtain ⟨errors, herrors⟩ :=
      hshort ⟨trivial, trivial, trivial, trivial, trivial, trivial, trivial⟩
    obtain ⟨c', added, hrun, hadded, hids, hversions⟩ := hforms errors herrors
    refine ⟨c', added, hrun, hadded, fun issue hissue => ⟨fun hcode => ?_, fun hcode => ?_⟩⟩
    · refine ((hids issue).1 ⟨hissue, hcode⟩).1 ((isKebabCase_iff _).1 (by decide +kernel))
    · refine ((hversions issue).1 ⟨hissue, hcode⟩).1 ((isVersion_iff _).1 (by decide +kernel))

end Validation

end Playbook
