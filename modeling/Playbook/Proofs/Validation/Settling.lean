import Playbook.Proofs.Validation.Checking
import Playbook.Proofs.Value.Short

/-!
# Checks that come to an end

The only fault of a check of short documents is that something is used as a
list, or as a key, that cannot be one. `Settles` says exactly when that happens
and what a check has done when it does not.
-/

namespace Playbook.Validation

variable {α β ι : Type} {c c' : Check}

/-- Issues may have been added, and nothing else has changed. -/
structure Later (c c' : Check) : Prop where
  keeps : Keeps c c'
  errors : c.report.errors ⊆ c'.report.errors

theorem Later.refl (c : Check) : Later c c := ⟨.refl c, List.Subset.refl _⟩

theorem Later.trans {c₁ c₂ c₃ : Check} (h : Later c₁ c₂) (h' : Later c₂ c₃) : Later c₁ c₃ :=
  ⟨h.keeps.trans h'.keeps, List.Subset.trans h.errors h'.errors⟩

/-- There is an error for a file. -/
def Reported (path : Path) (c : Check) : Prop :=
  ∃ issue ∈ c.report.errors, issue.filePath = path.text

theorem Reported.of_subset {path : Path} (h : Reported path c)
    (herrors : c.report.errors ⊆ c'.report.errors) : Reported path c' := by
  obtain ⟨issue, hissue, hpath⟩ := h
  exact ⟨issue, herrors hissue, hpath⟩

/-- A step gives a result with `Q` if `P` holds, and is of no use for its values if not. -/
def Settles (c : Check) (step : Checking α) (P : Prop) (Q : α → Check → Prop) : Prop :=
  (P → ∃ a c', step.run c = .ok (a, c') ∧ Q a c') ∧ (¬ P → step.run c = .error .wrongType)

namespace Settles

variable {step : Checking α} {next : α → Checking β} {P S : Prop} {Q T : α → Check → Prop}
  {R : β → Check → Prop}

theorem mono (h : Settles c step P Q) (hiff : P ↔ S) (himp : ∀ a c', Q a c' → T a c') :
    Settles c step S T := by
  refine ⟨fun hS => ?_, fun hS => h.2 (mt hiff.1 hS)⟩
  obtain ⟨a, c', hrun, hQ⟩ := h.1 (hiff.2 hS)
  exact ⟨a, c', hrun, himp a c' hQ⟩

theorem imp (h : Settles c step P Q) (himp : ∀ a c', Q a c' → T a c') : Settles c step P T :=
  h.mono Iff.rfl himp

theorem iff (h : Settles c step P Q) (hiff : P ↔ S) : Settles c step S Q :=
  h.mono hiff fun _ _ hQ => hQ

theorem pure (a : α) : Settles c (Pure.pure a) True fun b c' => b = a ∧ c' = c :=
  ⟨fun _ => ⟨a, c, rfl, rfl, rfl⟩, fun h => absurd trivial h⟩

theorem result (a : α) : Settles c (Pure.pure a) True fun _ c' => Later c c' :=
  (pure a).imp fun _ _ h => h.2 ▸ .refl c

theorem fails (step : Checking α) (h : step.run c = .error .wrongType) :
    Settles c step False Q :=
  ⟨False.elim, fun _ => h⟩

theorem bind (h : Settles c step P Q) (hnext : ∀ a c', Q a c' → Settles c' (next a) S R) :
    Settles c (step >>= next) (P ∧ S) R := by
  refine ⟨fun hboth => ?_, fun hnot => ?_⟩
  · obtain ⟨hP, hS⟩ := hboth
    obtain ⟨a, c', hrun, hQ⟩ := h.1 hP
    obtain ⟨b, c'', hrun', hR⟩ := (hnext a c' hQ).1 hS
    refine ⟨b, c'', ?_, hR⟩
    rw [StateT.run_bind, hrun]
    exact hrun'
  · rw [StateT.run_bind]
    by_cases hP : P
    · obtain ⟨a, c', hrun, hQ⟩ := h.1 hP
      rw [hrun]
      exact (hnext a c' hQ).2 fun hS => hnot ⟨hP, hS⟩
    · rw [h.2 hP]
      rfl

/-- A step that always gives a result, before another. -/
theorem andThen (h : Settles c step True Q) (hnext : ∀ a c', Q a c' → Settles c' (next a) P R) :
    Settles c (step >>= next) P R :=
  (h.bind hnext).iff (by simp)

/-- Of two steps that only add issues, the second is taken wherever the first has led to. -/
theorem bind_later (h : Settles c step P fun _ c' => Later c c')
    (hnext : ∀ a c', Settles c' (next a) S fun _ c'' => Later c' c'') :
    Settles c (step >>= next) (P ∧ S) fun _ c' => Later c c' :=
  h.bind fun a c' hlater => (hnext a c').imp fun _ _ hlater' => hlater.trans hlater'

theorem andThen_later (h : Settles c step True fun _ c' => Later c c')
    (hnext : ∀ a c', Settles c' (next a) P fun _ c'' => Later c' c'') :
    Settles c (step >>= next) P fun _ c' => Later c c' :=
  (h.bind_later hnext).iff (by simp)

theorem attempt {result : Attempt α} {a : α} (h : result = .ok a)
    (hnext : Settles c (next a) P R) : Settles c ((result : Checking α) >>= next) P R := by
  subst h
  exact hnext

theorem documentsOf {kind : ManifestKind} {next : Documents → Checking β}
    (h : Settles c (next (c.documents kind)) P R) :
    Settles c (Validation.documentsOf kind >>= next) P R := h

/-- An attempt that may itself be of no use. -/
theorem attempts {result : Attempt α} {P : α → Prop}
    (hfault : ∀ fault, result = .error fault → fault = .wrongType)
    (hnext : ∀ a, result = .ok a → Settles c (next a) (P a) R) :
    Settles c ((result : Checking α) >>= next) (∃ a, result = .ok a ∧ P a) R := by
  cases result with
  | error fault =>
      obtain rfl := hfault fault rfl
      refine (fails _ ?_).mono ⟨False.elim, ?_⟩ fun _ _ hR => hR
      · rfl
      · rintro ⟨a, ha, -⟩
        cases ha
  | ok a =>
      refine (hnext a rfl).mono ⟨fun hP => ⟨a, rfl, hP⟩, ?_⟩ fun _ _ hR => hR
      rintro ⟨b, hb, hP⟩
      cases hb
      exact hP

theorem ite {b : Prop} [Decidable b] {other : Checking α} (h : b → Settles c step P Q)
    (h' : ¬ b → Settles c other S Q) :
    Settles c (if b then step else other) ((b → P) ∧ (¬ b → S)) Q := by
  by_cases hb : b
  · rw [if_pos hb]
    exact (h hb).mono ⟨fun hP => ⟨fun _ => hP, absurd hb⟩, fun hP => hP.1 hb⟩ fun _ _ hQ => hQ
  · rw [if_neg hb]
    exact (h' hb).mono ⟨fun hP => ⟨fun h => absurd h hb, fun _ => hP⟩, fun hP => hP.2 hb⟩
      fun _ _ hQ => hQ

theorem either {b : Prop} [Decidable b] {other : Checking α} (h : b → Settles c step P Q)
    (h' : ¬ b → Settles c other P Q) : Settles c (if b then step else other) P Q := by
  split
  · exact h ‹b›
  · exact h' ‹¬ b›

/-- A step that is taken only under a condition. -/
theorem onlyIf {b : Prop} [Decidable b] {step : Checking Unit}
    (h : b → Settles c step P fun _ c' => Later c c') :
    Settles c (if b then step else Pure.pure ()) (b → P) fun _ c' => Later c c' :=
  (ite h fun _ => result ()).mono ⟨fun hP => hP.1, fun hP => ⟨hP, fun _ => trivial⟩⟩
    fun _ _ hQ => hQ

theorem guarded {b : Bool} {next : Unit → Checking α} (h : Settles c (next ()) P Q) :
    Settles c (if (!b) = true then (throw .wrongType : Checking Unit) >>= next else next ())
      (b = true ∧ P) Q := by
  cases b with
  | false => exact (fails _ rfl).iff (by simp)
  | true => exact h.iff (by simp)

/-! ## Steps for all members of a list -/

section

variable {l : List ι} {P : ι → Prop}

/-- What holds after a step for an item, and goes on to hold, holds after all steps. -/
theorem forM {f : ι → Checking Unit} {Q : ι → Check → Prop}
    (hmono : ∀ x ∈ l, ∀ c c', Later c c' → Q x c → Q x c')
    (h : ∀ x ∈ l, ∀ c, Settles c (f x) (P x) fun _ c' => Later c c' ∧ Q x c') (c : Check) :
    Settles c (l.forM f) (∀ x ∈ l, P x) fun _ c' => Later c c' ∧ ∀ x ∈ l, Q x c' := by
  induction l generalizing c with
  | nil => exact (result ()).mono (by simp) fun _ c' h => ⟨h, by simp⟩
  | cons x l ih =>
      have hrest := ih (fun y hy => hmono y (List.mem_cons_of_mem _ hy))
        fun y hy => h y (List.mem_cons_of_mem _ hy)
      have hfirst := h x List.mem_cons_self c
      change Settles c (f x >>= fun _ => l.forM f) _ _
      refine (hfirst.bind (R := fun _ c'' => Later c c'' ∧ ∀ y ∈ x :: l, Q y c'')
        fun _ c' hQ => (hrest c').imp ?_).iff (by simp)
      rintro _ c'' ⟨hlater, hall⟩
      refine ⟨hQ.1.trans hlater, fun y hy => ?_⟩
      rcases List.mem_cons.1 hy with rfl | hy
      · exact hmono y List.mem_cons_self _ _ hlater hQ.2
      · exact hall y hy

theorem forM_later {f : ι → Checking Unit}
    (h : ∀ x ∈ l, ∀ c, Settles c (f x) (P x) fun _ c' => Later c c') (c : Check) :
    Settles c (l.forM f) (∀ x ∈ l, P x) fun _ c' => Later c c' :=
  (forM (Q := fun _ _ => True) (fun _ _ _ _ _ _ => trivial)
    (fun x hx c => (h x hx c).imp fun _ _ h => ⟨h, trivial⟩) c).imp fun _ _ h => h.1

theorem mapM_later {f : ι → Checking β}
    (h : ∀ x ∈ l, ∀ c, Settles c (f x) (P x) fun _ c' => Later c c') (c : Check) :
    Settles c (l.mapM f) (∀ x ∈ l, P x) fun _ c' => Later c c' := by
  induction l generalizing c with
  | nil => exact (result []).iff (by simp)
  | cons x l ih =>
      have hrest := ih fun y hy => h y (List.mem_cons_of_mem _ hy)
      rw [List.mapM_cons]
      exact ((h x List.mem_cons_self c).bind_later fun b c₁ =>
        (hrest c₁).bind_later fun found c₂ => result (b :: found)).iff (by simp)

theorem foldlM_later {f : β → ι → Checking β}
    (h : ∀ x ∈ l, ∀ b c, Settles c (f b x) (P x) fun _ c' => Later c c') (b : β) (c : Check) :
    Settles c (l.foldlM f b) (∀ x ∈ l, P x) fun _ c' => Later c c' := by
  induction l generalizing b c with
  | nil => exact (result b).iff (by simp)
  | cons x l ih =>
      rw [List.foldlM_cons]
      exact ((h x List.mem_cons_self b c).bind_later fun b' c' =>
        ih (fun y hy => h y (List.mem_cons_of_mem _ hy)) b' c').iff (by simp)

end

end Settles

/-! ## Issues -/

theorem settles_addError (code : IssueCode) (location problem fix : String) (path : Path) :
    Settles c (addError code location problem fix path) True fun _ c' =>
      Later c c' ∧ Reported path c' := by
  refine ⟨fun _ => ⟨(), _, rfl, ⟨⟨rfl, rfl⟩, ?_⟩, ?_⟩, fun h => absurd trivial h⟩
  · exact List.subset_append_left _ _
  · exact ⟨_, List.mem_append_right _ (List.mem_singleton_self _), rfl⟩

/-- Where each item is reported, the document is, if there is an item at all. -/
theorem settles_reports {l : List ι} {f : ι → Checking Unit} {path : Path}
    (h : ∀ x c, Settles c (f x) True fun _ c' => Later c c' ∧ Reported path c') (c : Check) :
    Settles c (l.forM f) True fun _ c' => Later c c' ∧ (l ≠ [] → Reported path c') := by
  refine (Settles.forM (P := fun _ => True) (Q := fun _ => Reported path)
    (fun _ _ _ _ hlater h => h.of_subset hlater.errors) (fun x _ c => h x c) c).mono (by simp) ?_
  rintro _ c' ⟨hlater, hall⟩
  refine ⟨hlater, fun hsome => ?_⟩
  obtain ⟨x, hx⟩ := List.exists_mem_of_ne_nil _ hsome
  exact hall x hx

theorem settles_error (code : IssueCode) (location problem fix : String) (path : Path) :
    Settles c (addError code location problem fix path) True fun _ c' => Later c c' :=
  (settles_addError code location problem fix path).imp fun _ _ h => h.1

theorem settles_addWarning (code : IssueCode) (location problem fix : String) (path : Path) :
    Settles c (addWarning code location problem fix path) True fun _ c' => Later c c' :=
  ⟨fun _ => ⟨(), _, rfl, ⟨rfl, rfl⟩, List.Subset.refl _⟩, fun h => absurd trivial h⟩

theorem settles_countChecked : Settles c countChecked True fun _ c' => Later c c' :=
  ⟨fun _ => ⟨(), _, rfl, ⟨rfl, rfl⟩, List.Subset.refl _⟩, fun h => absurd trivial h⟩

end Playbook.Validation
