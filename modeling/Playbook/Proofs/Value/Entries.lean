import Playbook.Proofs.Value

/-!
# Entries under text keys

What is found under a text key after entries were put in, one after the
other, and after some of them were left out.
-/

namespace Playbook.Entries

variable {name : String}

theorem get?_cons (entry : Value × Value) (entries : Entries) (name : String) :
    get? (entry :: entries) name =
      if entry.1.same (.text name) then some entry.2 else get? entries name := by
  rw [get?, find?, List.find?_cons]
  cases entry.1.same (.text name) <;> rfl

theorem get?_insert (entries : Entries) (key value : Value) (name : String) :
    get? (insert entries key value) name =
      if key.same (.text name) then some value else get? entries name := by
  induction entries with
  | nil => rw [insert, get?_cons]
  | cons entry entries ih =>
      rw [insert]
      cases hsame : entry.1.same key with
      | true =>
          rw [if_pos rfl, get?_cons, get?_cons, Value.same_text_congr hsame]
          split <;> rfl
      | false =>
          rw [if_neg Bool.false_ne_true, get?_cons, get?_cons, ih]
          cases hentry : entry.1.same (.text name) with
          | false => simp
          | true =>
              -- Both keys would be the name, and so the same.
              have hkey : key.same (.text name) = false := by
                rw [Value.eq_of_same_text hentry] at hsame
                cases hname : key.same (.text name) with
                | false => rfl
                | true => rw [Value.eq_of_same_text hname, Value.same_refl] at hsame; cases hsame
              simp [hkey]

theorem get?_eq_none_of_forall {entries : Entries}
    (h : ∀ entry ∈ entries, entry.1.same (.text name) = false) : get? entries name = none := by
  rw [get?, find?, Option.map_eq_none_iff, List.find?_eq_none]
  intro entry hentry
  simp [h entry hentry]

/-- No key stands for two entries. -/
def Distinct (entries : Entries) : Prop :=
  List.Pairwise (fun a b : Value × Value => a.1.same b.1 = false) entries

/-- The entries behind one whose key is a name have other keys. -/
theorem Distinct.get?_eq_none {entry : Value × Value} {entries : Entries}
    (h : Distinct (entry :: entries)) (hentry : entry.1.same (.text name)) :
    get? entries name = none := by
  apply get?_eq_none_of_forall
  intro other hother
  have hdiffers := List.rel_of_pairwise_cons h hother
  cases hname : other.1.same (.text name) with
  | false => rfl
  | true =>
      rw [Value.eq_of_same_text hentry, Value.eq_of_same_text hname, Value.same_refl] at hdiffers
      cases hdiffers

/-- Entries that are put in one after the other go over those that are there. -/
theorem get?_foldl_insert {entries : Entries} (h : Distinct entries) (others : Entries)
    (name : String) :
    get? (entries.foldl (fun found e => insert found e.1 e.2) others) name =
      (get? entries name <|> get? others name) := by
  induction entries generalizing others with
  | nil => rfl
  | cons entry entries ih =>
      rw [List.foldl_cons, ih (List.Pairwise.of_cons h), get?_insert, get?_cons]
      cases hentry : entry.1.same (.text name) with
      | false => rfl
      | true =>
          rw [h.get?_eq_none hentry]
          rfl

theorem get?_filter {entries : Entries} (h : Distinct entries) (p : Value → Bool) (name : String) :
    get? (entries.filter fun e => p e.2) name = (get? entries name).filter p := by
  induction entries with
  | nil => rfl
  | cons entry entries ih =>
      have hrest := ih (List.Pairwise.of_cons h)
      rw [List.filter_cons, get?_cons]
      cases hkept : p entry.2 with
      | true =>
          rw [if_pos rfl, get?_cons, hrest]
          split
          · rw [Option.filter_some_pos hkept]
          · rfl
      | false =>
          rw [if_neg Bool.false_ne_true, hrest]
          split
          · rename_i hentry
            rw [h.get?_eq_none hentry, Option.filter_some_neg (by simp [hkept]), Option.filter_none]
          · rfl

end Playbook.Entries
