import Playbook.Proofs.Work
import Playbook.Validation

/-!
# Checks that pass

A check passes if it leaves no errors, and when it is strict no warnings.
Issues are only ever added, so that a check passes only if each of its steps
does. `Finds` says what a step that passes has found.
-/

namespace Playbook.Validation

variable {strict : Prop} {α β : Type}

def Passed (strict : Prop) (c : Check) : Prop :=
  c.report.errors = [] ∧ (strict → c.report.warnings = [])

/-- A step that leaves a passed check has started from one and has found `Q`. -/
def Finds (strict : Prop) (step : Checking α) (Q : Check → α → Check → Prop) : Prop :=
  ∀ c a c', step.run c = .ok (a, c') → Passed strict c' → Passed strict c ∧ Q c a c'

/-- The registered documents and the references are as they were. -/
def Keeps (c c' : Check) : Prop := c'.documents = c.documents ∧ c'.references = c.references

theorem Keeps.refl (c : Check) : Keeps c c := ⟨rfl, rfl⟩

theorem Keeps.trans {c₁ c₂ c₃ : Check} (h : Keeps c₁ c₂) (h' : Keeps c₂ c₃) : Keeps c₁ c₃ :=
  ⟨h'.1.trans h.1, h'.2.trans h.2⟩

namespace Finds

variable {step : Checking α} {next : α → Checking β} {Q Q' : Check → α → Check → Prop}

theorem mono (h : Finds strict step Q) (himp : ∀ c a c', Q c a c' → Q' c a c') :
    Finds strict step Q' := by
  intro c a c' hrun hpassed
  obtain ⟨hstart, hQ⟩ := h c a c' hrun hpassed
  exact ⟨hstart, himp c a c' hQ⟩

theorem pure (a : α) : Finds strict (Pure.pure a) fun c b c' => b = a ∧ c' = c := by
  intro c b c' hrun hpassed
  cases hrun
  exact ⟨hpassed, rfl, rfl⟩

theorem nothing : Finds strict (Pure.pure () : Checking Unit) fun c _ c' => Keeps c c' :=
  (pure ()).mono fun c _ _ h => h.2 ▸ .refl c

theorem bind {R : α → Check → β → Check → Prop} (h : Finds strict step Q)
    (hnext : ∀ a, Finds strict (next a) (R a)) :
    Finds strict (step >>= next) fun c b c'' => ∃ a c', Q c a c' ∧ R a c' b c'' := by
  intro c b c'' hrun hpassed
  rw [StateT.run_bind] at hrun
  obtain ⟨⟨a, c'⟩, hfirst, hsecond⟩ := Attempt.of_bind_ok hrun
  obtain ⟨hmid, hR⟩ := hnext a c' b c'' hsecond hpassed
  obtain ⟨hstart, hQ⟩ := h c a c' hfirst hmid
  exact ⟨hstart, a, c', hQ, hR⟩

theorem attempt (result : Attempt α) :
    Finds strict (result : Checking α) fun c a c' => result = .ok a ∧ c' = c := by
  intro c a c' hrun hpassed
  cases result with
  | error fault => cases hrun
  | ok b =>
      cases hrun
      exact ⟨hpassed, rfl, rfl⟩

theorem throw (fault : Fault) : Finds strict (throw fault : Checking α) fun _ _ _ => False := by
  intro c a c' hrun
  cases hrun

theorem get : Finds strict (get : Checking Check) fun c a c' => a = c ∧ c' = c := by
  intro c a c' hrun hpassed
  cases hrun
  exact ⟨hpassed, rfl, rfl⟩

theorem ite {p : Prop} [Decidable p] {other : Checking α} (h : p → Finds strict step Q)
    (h' : ¬ p → Finds strict other Q) : Finds strict (if p then step else other) Q := by
  split
  · exact h ‹p›
  · exact h' ‹¬ p›

/-- Steps that end in failure cannot be passed. -/
theorem never {R : Check → α → Check → Prop} (h : Finds strict step R)
    (hnext : ∀ a, Finds strict (next a) fun _ _ _ => False) :
    Finds strict (step >>= next) fun _ _ _ => False := by
  refine (h.bind hnext).mono ?_
  rintro c _ c' ⟨_, _, -, h⟩
  exact h

theorem guarded {p : Prop} [Decidable p] {fails : Checking Unit} {rest : Unit → Checking α}
    (hfails : Finds strict fails fun _ _ _ => False) (h : Finds strict (rest ()) Q) :
    Finds strict (if p then fails >>= rest else rest ()) fun c a c' => ¬ p ∧ Q c a c' := by
  refine ite (fun _ => (hfails.bind fun _ => h).mono ?_) fun hp => h.mono fun _ _ _ hQ => ⟨hp, hQ⟩
  rintro c _ c' ⟨_, _, h, -⟩
  exact h.elim

theorem refused {p : Prop} [Decidable p] {fails : Checking Unit}
    (hfails : Finds strict fails fun _ _ _ => False) :
    Finds strict (if p then fails else Pure.pure ()) fun c _ c' => ¬ p ∧ Keeps c c' := by
  refine ite (fun _ => hfails.mono fun _ _ _ h => h.elim) fun hp => ?_
  exact nothing.mono fun _ _ _ h => ⟨hp, h⟩

/-- Steps one after the other, each of which leads from a check to the next. -/
inductive Chain {ι : Type} (Q : ι → Check → Check → Prop) : List ι → Check → Check → Prop where
  | nil (c : Check) : Chain Q [] c c
  | cons {x : ι} {xs : List ι} {c c' c'' : Check} (h : Q x c c') (rest : Chain Q xs c' c'') :
      Chain Q (x :: xs) c c''

theorem forM {ι : Type} {l : List ι} {f : ι → Checking Unit} {Q : ι → Check → Check → Prop}
    (h : ∀ x ∈ l, Finds strict (f x) fun c _ c' => Q x c c') :
    Finds strict (l.forM f) fun c _ c' => Chain Q l c c' := by
  induction l with
  | nil =>
      intro c a c' hrun hpassed
      cases hrun
      exact ⟨hpassed, .nil c⟩
  | cons x l ih =>
      have hfirst := h x List.mem_cons_self
      have hrest := ih fun y hy => h y (List.mem_cons_of_mem _ hy)
      refine (hfirst.bind fun _ => hrest).mono ?_
      rintro c _ c'' ⟨_, c', hQ, hchain⟩
      exact .cons hQ hchain

/-- What each of some steps keeps, all of them keep; what one finds stays found. -/
theorem Chain.keeps {ι : Type} {P : ι → Prop} {l : List ι} {c c' : Check}
    (h : Chain (fun x c c' => P x ∧ Keeps c c') l c c') : (∀ x ∈ l, P x) ∧ Keeps c c' := by
  induction h with
  | nil c => exact ⟨by simp, .refl c⟩
  | cons h _ ih =>
      refine ⟨fun y hy => ?_, h.2.trans ih.2⟩
      rcases List.mem_cons.1 hy with rfl | hy
      · exact h.1
      · exact ih.1 y hy

/-- Steps that find something of their items and keep the state. -/
theorem forM_keeps {ι : Type} {l : List ι} {f : ι → Checking Unit} {P : ι → Prop}
    (h : ∀ x ∈ l, Finds strict (f x) fun c _ c' => P x ∧ Keeps c c') :
    Finds strict (l.forM f) fun c _ c' => (∀ x ∈ l, P x) ∧ Keeps c c' :=
  (forM h).mono fun _ _ _ hchain => hchain.keeps

theorem mapM_keeps {ι : Type} {l : List ι} {f : ι → Checking β} {R : ι → β → Prop}
    (h : ∀ x ∈ l, Finds strict (f x) fun c b c' => R x b ∧ Keeps c c') :
    Finds strict (l.mapM f) fun c found c' => List.Forall₂ R l found ∧ Keeps c c' := by
  induction l with
  | nil => exact (pure []).mono fun c found c' h => ⟨h.1 ▸ .nil, h.2 ▸ .refl c⟩
  | cons x l ih =>
      have hfirst := h x List.mem_cons_self
      have hrest := ih fun y hy => h y (List.mem_cons_of_mem _ hy)
      rw [List.mapM_cons]
      refine (hfirst.bind fun b => hrest.bind fun found => pure (b :: found)).mono ?_
      rintro c _ c' ⟨b, c₁, ⟨hb, hkeeps⟩, found, _, ⟨hall, hkeeps'⟩, rfl, rfl⟩
      exact ⟨.cons hb hall, hkeeps.trans hkeeps'⟩

end Finds

/-! ## Issues -/

theorem finds_addError (code : IssueCode) (location problem fix : String) (path : Path) :
    Finds strict (addError code location problem fix path) fun _ _ _ => False := by
  intro c a c' hrun hpassed
  cases hrun
  exact absurd hpassed.1 (by simp [Report.addError])

theorem finds_addWarning (code : IssueCode) (location problem fix : String) (path : Path) :
    Finds strict (addWarning code location problem fix path) fun c _ c' =>
      ¬ strict ∧ Keeps c c' := by
  intro c a c' hrun hpassed
  cases hrun
  have hloose : ¬ strict := fun h => by simpa [Report.addWarning] using hpassed.2 h
  exact ⟨⟨hpassed.1, fun h => absurd h hloose⟩, hloose, rfl, rfl⟩

theorem finds_countChecked : Finds strict countChecked fun c _ c' => Keeps c c' := by
  intro c a c' hrun hpassed
  cases hrun
  exact ⟨hpassed, rfl, rfl⟩

theorem finds_documentsOf (kind : ManifestKind) :
    Finds strict (documentsOf kind) fun c a c' => a = c.documents kind ∧ c' = c := by
  intro c a c' hrun hpassed
  cases hrun
  exact ⟨hpassed, rfl, rfl⟩

/-! ## Single documents -/

theorem finds_checkSchema (kind : ManifestKind) (location : String) (path : Path)
    (document : Value) :
    Finds strict (checkSchema kind location path document) fun c _ c' =>
      kind.schemaErrors document = .ok [] ∧ Keeps c c' := by
  refine ((Finds.attempt _).bind fun errors =>
    Finds.forM_keeps (P := fun _ => False) fun x _ => ?_).mono ?_
  · exact (finds_addError _ _ _ _ _).mono fun _ _ _ h => h.elim
  · rintro c _ c'' ⟨errors, c', ⟨herrors, rfl⟩, hnone, hkeeps⟩
    cases errors with
    | nil => exact ⟨herrors, hkeeps⟩
    | cons x errors => exact (hnone x List.mem_cons_self).elim

private theorem finds_checkVersion (location : String) (path : Path) (document : Value) :
    Finds strict (do
      let version := field document "version"
      if !version.isNull then
        let shown ← (version.shown : Attempt String)
        if !isVersion shown then
          addError .versionFormat location ("version '" ++ shown ++ "' is not MAJOR.MINOR.PATCH")
            "Use a semantic version such as 1.0.0" path) fun c _ c' => Keeps c c' := by
  refine Finds.ite (fun _ => ?_) fun _ => Finds.nothing
  refine ((Finds.attempt _).bind fun shown => Finds.refused (finds_addError _ _ _ _ _)).mono ?_
  rintro c _ c'' ⟨_, c', ⟨-, rfl⟩, -, hkeeps⟩
  exact hkeeps

theorem finds_checkForms (id location : String) (path : Path) (document : Value) :
    Finds strict (checkForms id location path document) fun c _ c' =>
      (id ≠ "" → isKebabCase id = true) ∧ Keeps c c' := by
  have hversion := @finds_checkVersion strict location path document
  refine Finds.ite (fun _ => ?_) fun hform => ?_
  · refine ((finds_addError _ _ _ _ _).bind fun _ => hversion).mono ?_
    rintro c _ c'' ⟨_, c', h, -⟩
    exact h.elim
  · refine hversion.mono fun c _ c' hkeeps => ⟨fun hid => ?_, hkeeps⟩
    simpa [String.isEmpty_iff, hid] using hform

/-- The documents with one more of a kind. -/
def withDocument (kind : ManifestKind) (entry : String × Document)
    (documents : ManifestKind → Documents) : ManifestKind → Documents := fun k =>
  if k = kind then documents k ++ [entry] else documents k

theorem finds_addDocument (kind : ManifestKind) (id : String) (document : Document) :
    Finds strict (addDocument kind id document) fun c _ c' =>
      c'.references = c.references ∧
        c'.documents = withDocument kind (id, document) c.documents := by
  intro c a c' hrun hpassed
  cases hrun
  exact ⟨hpassed, rfl, rfl⟩

theorem finds_register (kind : ManifestKind) (id location : String) (path : Path)
    (document : Value) :
    Finds strict (register kind id location path document) fun c _ c' =>
      (c.documents kind).lookup id = none ∧ c'.references = c.references ∧
        c'.documents = withDocument kind (id, ⟨path, document⟩) c.documents := by
  refine ((finds_documentsOf kind).bind (R := fun found c _ c' => found.lookup id = none ∧
    c'.references = c.references ∧
    c'.documents = withDocument kind (id, ⟨path, document⟩) c.documents) fun found => ?_).mono ?_
  · cases found.lookup id with
    | some existing => exact (finds_addError _ _ _ _ _).mono fun _ _ _ h => h.elim
    | none =>
        exact (finds_addDocument kind id ⟨path, document⟩).mono fun c _ c' h => ⟨rfl, h⟩
  · rintro c _ c'' ⟨_, _, ⟨rfl, rfl⟩, h⟩
    exact h

/-- A document that follows the schema of its kind and has an id of the right form. -/
structure Sound (kind : ManifestKind) (document : Value) (id : String) : Prop where
  text : idText document = .ok id
  accepted : kind.schemaErrors document = .ok []
  form : id ≠ "" → isKebabCase id = true

theorem finds_checkDocument (kind : ManifestKind) (path : Path) (document : Value)
    (registered : Bool) :
    Finds strict (checkDocument kind path document registered) fun c _ c' =>
      ∃ id, Sound kind document id ∧ c'.references = c.references ∧
        if id ≠ "" ∧ registered = true then
          (c.documents kind).lookup id = none ∧
            c'.documents = withDocument kind (id, ⟨path, document⟩) c.documents
        else c'.documents = c.documents := by
  refine (finds_countChecked.bind fun _ => (Finds.attempt _).bind fun id =>
    (finds_checkSchema kind _ path document).bind fun _ =>
      (finds_checkForms id _ path document).bind (R := fun _ c _ c' =>
        c'.references = c.references ∧ if id ≠ "" ∧ registered = true then
          (c.documents kind).lookup id = none ∧
            c'.documents = withDocument kind (id, ⟨path, document⟩) c.documents
        else c'.documents = c.documents) fun _ => ?_).mono ?_
  · refine Finds.ite (fun h => ?_) fun h => ?_
    · have hregistered : id ≠ "" ∧ registered = true := by
        simpa [String.isEmpty_iff] using h
      refine (finds_register kind id _ path document).mono ?_
      rintro c _ c' ⟨hnew, hreferences, hdocuments⟩
      rw [if_pos hregistered]
      exact ⟨hreferences, hnew, hdocuments⟩
    · have hregistered : ¬ (id ≠ "" ∧ registered = true) := by
        simpa [String.isEmpty_iff] using h
      refine (Finds.pure ()).mono ?_
      rintro c _ _ ⟨-, rfl⟩
      rw [if_neg hregistered]
      exact ⟨rfl, rfl⟩
  · rintro c₁ _ c₆ ⟨_, c₂, hcount, id, c₃, ⟨hid, rfl⟩, _, c₄, ⟨haccepted, hschema⟩, _, c₅,
      ⟨hform, hforms⟩, hreferences, hdocuments⟩
    have hkeeps := (hcount.trans hschema).trans hforms
    rw [hkeeps.1] at hdocuments
    exact ⟨id, ⟨hid, haccepted, hform⟩, hreferences.trans hkeeps.2, hdocuments⟩

theorem finds_load (tree : Tree) (kind : ManifestKind) (path : Path) :
    Finds strict (load tree kind path) fun c found c' =>
      c' = c ∧ ∃ v, found = some v ∧ Manifests.document tree path = .ok (.ok v) := by
  refine ((Finds.attempt _).bind (R := fun result c found c' =>
    c' = c ∧ ∃ v, found = some v ∧ result = .ok v) fun result => ?_).mono ?_
  · cases result with
    | ok v =>
        refine (Finds.pure (some v)).mono ?_
        rintro c _ _ ⟨rfl, rfl⟩
        exact ⟨rfl, v, rfl, rfl⟩
    | error unusable =>
        refine (finds_countChecked.bind fun _ => (finds_addError _ _ _ _ _).bind fun _ =>
          Finds.pure none).mono ?_
        rintro c _ _ ⟨_, _, _, _, _, h, _⟩
        exact h.elim
  · rintro c found c' ⟨result, _, ⟨hresult, rfl⟩, hsame, v, hfound, rfl⟩
    exact ⟨hsame, v, hfound, hresult⟩

end Playbook.Validation
