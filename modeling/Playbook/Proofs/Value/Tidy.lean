import Mathlib.Data.List.Nodup
import Playbook.Proofs.Value.Entries
import Playbook.Proofs.Value.Held
import Playbook.Proofs.Value.Keys

/-!
# Tidy values

A value is tidy if no mapping inside of it has a key twice and no set a member
twice, as it is with every value that was built by putting in one thing after
the other. It is grounded if nothing inside of it holds itself.
-/

namespace Playbook.Value

/-! ## Keys of a collection -/

/-- No two of the values are the same. -/
def AllDiffer (items : List Value) : Prop := items.Pairwise fun v w => v.same w = false

/-- Different values that can be keys: the members of a set, the keys of a mapping. -/
structure AreKeys (keys : List Value) : Prop where
  isKey : ∀ k ∈ keys, k.IsKey
  differ : AllDiffer keys

theorem IsKey.text (s : String) : (Value.text s).IsKey := ⟨rfl, trivial⟩

namespace AreKeys

variable {k : Value} {keys : List Value}

theorem nil : AreKeys [] := ⟨by simp, .nil⟩

theorem cons_iff : AreKeys (k :: keys) ↔
    k.IsKey ∧ (∀ other ∈ keys, k.key ≠ other.key) ∧ AreKeys keys := by
  constructor
  · rintro ⟨hkeys, hdiffer⟩
    obtain ⟨hk, hkeys⟩ := List.forall_mem_cons.1 hkeys
    obtain ⟨hfirst, hdiffer⟩ := List.pairwise_cons.1 hdiffer
    refine ⟨hk, fun other hother hkey => ?_, hkeys, hdiffer⟩
    have hsame := (hk.same_iff (hkeys other hother)).2 hkey
    rw [hfirst other hother] at hsame
    cases hsame
  · rintro ⟨hk, hfirst, hkeys, hdiffer⟩
    refine ⟨List.forall_mem_cons.2 ⟨hk, hkeys⟩, List.pairwise_cons.2 ⟨fun other hother => ?_,
      hdiffer⟩⟩
    exact Bool.eq_false_iff.2 fun hsame =>
      hfirst other hother ((hk.same_iff (hkeys other hother)).1 hsame)

theorem nodup (h : AreKeys keys) : (keys.map key).Nodup := by
  induction keys with
  | nil => exact List.nodup_nil
  | cons k keys ih =>
      obtain ⟨-, hfirst, hkeys⟩ := cons_iff.1 h
      refine List.nodup_cons.2 ⟨fun hmem => ?_, ih hkeys⟩
      obtain ⟨other, hother, hkey⟩ := List.mem_map.1 hmem
      exact hfirst other hother hkey.symm

theorem nodup_entries {entries : Entries} (h : AreKeys (entries.map Prod.fst)) :
    (entries.map (·.1.key)).Nodup := by
  simpa [Function.comp_def] using h.nodup

/-- The entries under one key are one. -/
theorem eq_of_key_eq {entries : Entries} (h : AreKeys (entries.map Prod.fst)) {e f : Value × Value}
    (he : e ∈ entries) (hf : f ∈ entries) (hkey : e.1.key = f.1.key) : e = f :=
  List.inj_on_of_nodup_map h.nodup_entries he hf hkey

end AreKeys

/-! ## Tidy values -/

mutual

def Tidy : Value → Prop
  | .float x => x.Canonical
  | .list items | .tuple items => AllTidy items
  | .set members => AreKeys members
  | .mapping entries => AreKeys (entries.map Prod.fst) ∧ EntriesTidy entries
  | .cycle _ content => Tidy content
  | _ => True

def AllTidy : List Value → Prop
  | [] => True
  | x :: items => Tidy x ∧ AllTidy items

def EntriesTidy : List (Value × Value) → Prop
  | [] => True
  | (_, v) :: entries => Tidy v ∧ EntriesTidy entries

end

variable {v : Value} {items : List Value} {es : Entries}

theorem allTidy_iff : AllTidy items ↔ ∀ x ∈ items, x.Tidy := by
  induction items with
  | nil => simp [AllTidy]
  | cons x items ih => simp [AllTidy, ih]

theorem entriesTidy_iff : EntriesTidy es ↔ ∀ entry ∈ es, entry.2.Tidy := by
  induction es with
  | nil => simp [EntriesTidy]
  | cons entry es ih => simp [EntriesTidy, ih]

theorem tidy_list : (Value.list items).Tidy ↔ ∀ x ∈ items, x.Tidy := allTidy_iff

theorem tidy_tuple : (Value.tuple items).Tidy ↔ ∀ x ∈ items, x.Tidy := allTidy_iff

theorem tidy_mapping :
    (Value.mapping es).Tidy ↔ AreKeys (es.map Prod.fst) ∧ ∀ entry ∈ es, entry.2.Tidy :=
  and_congr_right fun _ => entriesTidy_iff

theorem hereditary_tidy : Hereditary Tidy where
  list _ h := ⟨tidy_list.1 h, fun _ ho => tidy_list.2 (List.forall_mem_map.2 ho)⟩
  tuple _ h := ⟨tidy_tuple.1 h, fun _ ho => tidy_tuple.2 (List.forall_mem_map.2 ho)⟩
  mapping es h := by
    obtain ⟨hkeys, hentries⟩ := tidy_mapping.1 h
    refine ⟨hentries, fun f ho => tidy_mapping.2 ⟨?_, List.forall_mem_map.2 ho⟩⟩
    rwa [List.map_map]
  cycle _ _ h := ⟨h, fun _ _ ho => ho⟩

theorem Tidy.opened (h : v.Tidy) : v.opened.Tidy := hereditary_tidy.opened h

/-! ## Grounded values -/

mutual

def Grounded : Value → Prop
  | .list items | .tuple items | .set items => AllGrounded items
  | .mapping entries => EntriesGrounded entries
  | .cycle .. | .again _ => False
  | _ => True

def AllGrounded : List Value → Prop
  | [] => True
  | x :: items => Grounded x ∧ AllGrounded items

def EntriesGrounded : List (Value × Value) → Prop
  | [] => True
  | (_, v) :: entries => Grounded v ∧ EntriesGrounded entries

end

theorem allGrounded_iff : AllGrounded items ↔ ∀ x ∈ items, x.Grounded := by
  induction items with
  | nil => simp [AllGrounded]
  | cons x items ih => simp [AllGrounded, ih]

theorem entriesGrounded_iff : EntriesGrounded es ↔ ∀ entry ∈ es, entry.2.Grounded := by
  induction es with
  | nil => simp [EntriesGrounded]
  | cons entry es ih => simp [EntriesGrounded, ih]

theorem grounded_list : (Value.list items).Grounded ↔ ∀ x ∈ items, x.Grounded := allGrounded_iff

theorem grounded_mapping : (Value.mapping es).Grounded ↔ ∀ entry ∈ es, entry.2.Grounded :=
  entriesGrounded_iff

theorem Grounded.opened (h : v.Grounded) : v.opened = v := by
  cases v with
  | cycle name content => exact absurd h id
  | _ => rfl

end Playbook.Value
