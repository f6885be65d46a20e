import Mathlib.Data.List.Nodup
import Mathlib.Data.List.Perm.Subperm
import Playbook.Proofs.Shell.Variable

/-!
# Variables for documents

Each document of a step has a variable of its own: the first numbered form of
its name that none of the documents in front of it has. A text refers to the
variables whose names stand behind the `${` in it.
-/

namespace Playbook.Shell

/-! ## Free names -/

theorem numbered_injective (base : String) : Function.Injective (numbered base) := by
  have hsuffix {n : Nat} : base ≠ base ++ "_" ++ toString n := by
    intro h
    have hlength := congrArg String.length h
    simp only [String.length_append, show "_".length = 1 from rfl] at hlength
    omega
  intro m n h
  cases m with
  | zero =>
      cases n with
      | zero => rfl
      | succ n => exact absurd h hsuffix
  | succ m =>
      cases n with
      | zero => exact absurd h.symm hsuffix
      | succ n =>
          have hdigits := congrArg String.toList h
          simp only [numbered, if_neg (Nat.succ_ne_zero _), String.toList_append,
            List.append_cancel_left_eq] at hdigits
          have hread := congrArg (fun digits => Nat.ofDigitChars 10 digits 0) hdigits
          simpa [Nat.toString_eq_ofList_toDigits] using hread

/-- The first numbered form of a name that is not in use. -/
def FirstFree (used : List String) (base name : String) : Prop :=
  ∃ n, name = numbered base n ∧ name ∉ used ∧ ∀ m < n, numbered base m ∈ used

theorem FirstFree.congr {used others : List String} {base name : String}
    (h : FirstFree used base name) (hmem : ∀ other, other ∈ used ↔ other ∈ others) :
    FirstFree others base name := by
  obtain ⟨n, hname, hfree, hbefore⟩ := h
  exact ⟨n, hname, (hmem name).not.1 hfree, fun m hm => (hmem _).1 (hbefore m hm)⟩

/-- There are more numbered forms to be looked at than names in use. -/
theorem firstFree_freshName (used : List String) (base : String) :
    FirstFree used base (freshName used base) := by
  rw [freshName, List.find?_map]
  cases hfound : (List.range (used.length + 1)).find?
      ((fun name => !used.contains name) ∘ numbered base) with
  | none =>
      have hall : (List.range (used.length + 1)).map (numbered base) ⊆ used := by
        intro name hname
        obtain ⟨n, hn, rfl⟩ := List.mem_map.1 hname
        simpa using List.find?_eq_none.1 hfound n hn
      have hnodup : ((List.range (used.length + 1)).map (numbered base)).Nodup :=
        List.Nodup.map (numbered_injective base) List.nodup_range
      have hlength := (List.subperm_of_subset hnodup hall).length_le
      rw [List.length_map, List.length_range] at hlength
      omega
  | some n =>
      obtain ⟨hfree, -, hbefore⟩ := List.find?_range_eq_some.1 hfound
      exact ⟨n, rfl, by simpa using hfree, fun m hm => by simpa using hbefore m hm⟩

theorem firstFree_documentVariablesFrom (used paths : List String) {i : Nat} {path : String}
    (h : paths[i]? = some path) :
    ∃ name, (documentVariablesFrom used paths)[i]? = some name ∧
      FirstFree (used ++ (documentVariablesFrom used paths).take i) (documentVariable path)
        name := by
  induction paths generalizing used i with
  | nil => simp at h
  | cons first paths ih =>
      rw [documentVariablesFrom]
      cases i with
      | zero =>
          cases h
          exact ⟨_, rfl, by simpa using firstFree_freshName used _⟩
      | succ i =>
          obtain ⟨name, hname, hfirst⟩ := ih (freshName used (documentVariable first) :: used) h
          refine ⟨name, hname, hfirst.congr fun other => ?_⟩
          simp only [List.take_succ_cons, List.mem_append, List.mem_cons]
          tauto

theorem length_documentVariablesFrom (used paths : List String) :
    (documentVariablesFrom used paths).length = paths.length := by
  induction paths generalizing used with
  | nil => rfl
  | cons path paths ih => simp [documentVariablesFrom, ih]

theorem nodup_documentVariablesFrom (used paths : List String) :
    (documentVariablesFrom used paths).Nodup ∧
      ∀ name ∈ documentVariablesFrom used paths, name ∉ used := by
  induction paths generalizing used with
  | nil => simp [documentVariablesFrom]
  | cons path paths ih =>
      obtain ⟨-, -, hfree, -⟩ := firstFree_freshName used (documentVariable path)
      obtain ⟨hnodup, hnew⟩ := ih (freshName used (documentVariable path) :: used)
      rw [documentVariablesFrom]
      refine ⟨List.nodup_cons.2 ⟨fun hmem => hnew _ hmem List.mem_cons_self, hnodup⟩, ?_⟩
      exact List.forall_mem_cons.2
        ⟨hfree, fun name hname hused => hnew name hname (List.mem_cons_of_mem _ hused)⟩

theorem exists_documentVariable (path : String) :
    ∃ rest, documentVariable path = "DOC_CONTENT_" ++ rest ∧
      ∀ c ∈ rest.toList, isVariableChar c := by
  refine ⟨_, rfl, fun c hc => ?_⟩
  rw [String.toList_ofList] at hc
  obtain ⟨d, -, rfl⟩ := List.mem_map.1 hc
  unfold documentChar
  split
  · case isTrue hcapital => simp [isVariableChar, hcapital]
  · rfl

theorem isVariableChar_of_mem_toString {n : Nat} {c : Char} (h : c ∈ (toString n).toList) :
    isVariableChar c := by
  rw [show (toString n).toList = Nat.toDigits 10 n from String.toList_ofList] at h
  have hdigit := Nat.isDigit_of_mem_toDigits (by decide) (by decide) h
  obtain ⟨hlow, hhigh⟩ : '0' ≤ c ∧ c ≤ '9' := by
    simpa [Char.isDigit, Char.le_def] using hdigit
  simp [isVariableChar, isCapitalOrDigit, hlow, hhigh]

theorem exists_of_mem_documentVariables {paths : List String} {name : String}
    (h : name ∈ documentVariables paths) :
    ∃ rest, name = "DOC_CONTENT_" ++ rest ∧ ∀ c ∈ rest.toList, isVariableChar c := by
  obtain ⟨i, hi, hname⟩ := List.getElem_of_mem h
  obtain ⟨path, hpath⟩ : ∃ path, paths[i]? = some path := by
    rw [documentVariables, length_documentVariablesFrom] at hi
    exact ⟨paths[i], List.getElem?_eq_getElem hi⟩
  obtain ⟨other, hother, n, hform, -⟩ := firstFree_documentVariablesFrom [] paths hpath
  obtain rfl : other = name := by
    rw [← hname]
    exact (Option.some.inj ((List.getElem?_eq_getElem hi).symm.trans hother)).symm
  obtain ⟨rest, hpath, hrest⟩ := exists_documentVariable path
  rw [hform, hpath, numbered]
  split
  · exact ⟨rest, rfl, hrest⟩
  · refine ⟨rest ++ "_" ++ toString (n + 1), by simp only [String.append_assoc], ?_⟩
    simp only [String.toList_append, List.forall_mem_append]
    exact ⟨⟨hrest, List.all_eq_true.1 (by decide)⟩, fun _ => isVariableChar_of_mem_toString⟩

/-! ## References -/

/-- What a shell reads as the name of a variable. -/
def isWordChar (c : Char) : Bool :=
  isVariableChar c || (decide ('a' ≤ c) && decide (c ≤ 'z'))

/-- The names behind each `${` of a text, in order. -/
def references : List Char → List (List Char)
  | '$' :: '{' :: rest => rest.takeWhile isWordChar :: references rest
  | _ :: rest => references rest
  | [] => []

theorem references_cons {c : Char} {rest : List Char}
    (h : ∀ behind, c = '$' → rest = '{' :: behind → False) :
    references (c :: rest) = references rest := by
  rw [references]
  exact h

theorem takeWhile_append_cons {p : Char → Bool} {c : Char} (h : p c = false)
    (text rest : List Char) : (text ++ c :: rest).takeWhile p = text.takeWhile p := by
  induction text with
  | nil => simp [h]
  | cons d text ih => rw [List.cons_append, List.takeWhile_cons, List.takeWhile_cons, ih]

/-- References do not reach over a character that neither opens a brace nor is part of a name. -/
theorem references_append {c : Char} (hbrace : c ≠ '{') (hword : isWordChar c = false)
    (text rest : List Char) :
    references (text ++ c :: rest) = references text ++ references (c :: rest) := by
  induction text using references.induct with
  | case1 text ih =>
      rw [List.cons_append, List.cons_append, references, references, ih,
        takeWhile_append_cons hword, List.cons_append]
  | case2 d text hd ih =>
      have hopen : ∀ behind, d = '$' → text ++ c :: rest = '{' :: behind → False := by
        intro behind hdollar htext
        cases text with
        | nil => exact hbrace (List.cons.inj htext).1
        | cons e text => exact hd text hdollar (by rw [(List.cons.inj htext).1])
      rw [List.cons_append, references_cons hopen, references_cons hd, ih]
  | case3 => rfl

/-- Without a dollar sign there is no reference. -/
theorem references_append_of_not_mem {text : List Char} (h : '$' ∉ text) (rest : List Char) :
    references (text ++ rest) = references rest := by
  induction text with
  | nil => rfl
  | cons c text ih =>
      rw [List.mem_cons, not_or] at h
      rw [List.cons_append, references_cons fun _ hc _ => h.1 hc.symm, ih h.2]

theorem references_reference {name : List Char} (h : ∀ c ∈ name, isVariableChar c)
    (rest : List Char) : references (reference name ++ rest) = name :: references rest := by
  have hname : ∀ c ∈ name, isWordChar c := fun c hc => by simp [isWordChar, h c hc]
  have hdollar : '$' ∉ name ++ ['}'] := by
    intro hmem
    rcases List.mem_append.1 hmem with hmem | hmem
    · cases h '$' hmem
    · simp at hmem
  have htake : (name ++ ['}'] ++ rest).takeWhile isWordChar = name := by
    rw [List.append_assoc, List.takeWhile_append_of_pos hname, List.singleton_append,
      List.takeWhile_cons_of_neg (by decide), List.append_nil]
  rw [reference, List.cons_append, List.cons_append, List.cons_append, List.cons_append,
    references, htake, references_append_of_not_mem hdollar]

end Playbook.Shell
