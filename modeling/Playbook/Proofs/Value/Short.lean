import Playbook.Proofs.Value.Reading
import Playbook.Validation

/-!
# Short values

A whole number has a text only if it has few enough digits. A value is short
if that is so for each of its numbers and for the lengths of its lists. What a
short value holds is short, also after it was opened, and has a text.
-/

namespace Playbook.Value

mutual

def Short : Value → Prop
  | .int n => (Value.int n).isShowable = true
  | .list items => items.length ≤ digitBound ∧ AllShort items
  | .tuple items | .set items => AllShort items
  | .mapping entries => EntriesShort entries
  | .cycle _ content => Short content
  | _ => True

def AllShort : List Value → Prop
  | [] => True
  | x :: items => Short x ∧ AllShort items

def EntriesShort : List (Value × Value) → Prop
  | [] => True
  | (k, v) :: entries => Short k ∧ Short v ∧ EntriesShort entries

end

variable {v : Value} {es : Entries} {items : List Value}

/-! ## Texts -/

mutual

theorem Short.isShowable : ∀ {v : Value}, v.Short → v.isShowable = true
  | .int _, h => h
  | .list _, h => AllShort.areShowable h.2
  | .tuple items, h | .set items, h => @AllShort.areShowable items h
  | .mapping entries, h => @EntriesShort.areShowable entries h
  | .cycle _ content, h => Short.isShowable (v := content) h
  | .null, _ | .bool _, _ | .float _, _ | .text _, _ | .bytes _, _ | .day _, _ | .instant _, _
  | .again _, _ => rfl

theorem AllShort.areShowable : ∀ {items : List Value}, AllShort items → areShowable items = true
  | [], _ => rfl
  | _ :: _, h => by
      rw [Value.areShowable, Bool.and_eq_true]
      exact ⟨h.1.isShowable, AllShort.areShowable h.2⟩

theorem EntriesShort.areShowable :
    ∀ {entries : List (Value × Value)}, EntriesShort entries → areShowableEntries entries = true
  | [], _ => rfl
  | (_, _) :: _, h => by
      rw [areShowableEntries, Bool.and_eq_true, Bool.and_eq_true]
      exact ⟨⟨h.1.isShowable, h.2.1.isShowable⟩, EntriesShort.areShowable h.2.2⟩

end

theorem Short.shown (h : v.Short) : v.shown = .ok v.display := by
  rw [Value.shown, if_pos h.isShowable]

/-! ## Parts -/

theorem allShort_iff : AllShort items ↔ ∀ x ∈ items, x.Short := by
  induction items with
  | nil => simp [AllShort]
  | cons x items ih => simp [AllShort, ih]

theorem entriesShort_iff : EntriesShort es ↔ ∀ entry ∈ es, entry.1.Short ∧ entry.2.Short := by
  induction es with
  | nil => simp [EntriesShort]
  | cons entry es ih => simp [EntriesShort, ih, and_assoc]

theorem EntriesShort.append {others : Entries} (h : EntriesShort es) (h' : EntriesShort others) :
    EntriesShort (es ++ others) :=
  entriesShort_iff.2 (List.forall_mem_append.2 ⟨entriesShort_iff.1 h, entriesShort_iff.1 h'⟩)

theorem hereditary_short : Hereditary Short where
  list items h := by
    obtain ⟨hlength, hitems⟩ := h
    refine ⟨allShort_iff.1 hitems, fun f ho => ⟨?_, allShort_iff.2 (List.forall_mem_map.2 ho)⟩⟩
    rwa [List.length_map]
  tuple _ h := ⟨allShort_iff.1 h, fun _ ho => allShort_iff.2 (List.forall_mem_map.2 ho)⟩
  mapping _ h := ⟨fun entry hentry => (entriesShort_iff.1 h entry hentry).2, fun _ ho =>
    entriesShort_iff.2 (List.forall_mem_map.2 fun entry hentry =>
      ⟨(entriesShort_iff.1 h entry hentry).1, ho entry hentry⟩)⟩
  cycle _ _ h := ⟨h, fun _ _ ho => ho⟩

theorem Short.opened (h : v.Short) : v.opened.Short := hereditary_short.opened h

theorem Short.entry (h : v.Short) (hv : v.opened = .mapping es) {entry : Value × Value}
    (hentry : entry ∈ es) : entry.1.Short ∧ entry.2.Short := by
  have hopened := h.opened
  rw [hv] at hopened
  exact entriesShort_iff.1 hopened entry hentry

theorem Short.field (h : v.Short) (name : String) : (Validation.field v name).Short := by
  rw [Validation.field]
  split
  · rename_i es hv
    cases hx : Entries.get? es name with
    | none => trivial
    | some x => exact hereditary_short.get? h hv hx
  · trivial

theorem short_byte (byte : UInt8) : (Value.int byte.toNat).Short := by
  have hbound : 256 ≤ digitBound := by decide +kernel
  have hbyte : byte.toNat < 256 := byte.toNat_lt
  rw [Short, isShowable, Int.natAbs_natCast]
  exact decide_eq_true (Nat.lt_of_lt_of_le hbyte hbound)

theorem Short.member (h : v.Short) (hitems : v.members = .ok items) : ∀ x ∈ items, x.Short :=
  hereditary_short.member (fun _ hset => allShort_iff.1 hset)
    (fun _ hmapping entry hentry => (entriesShort_iff.1 hmapping entry hentry).1)
    (fun _ => trivial) short_byte h hitems

theorem Short.orElse {replacement : Value} (h : v.Short) (hreplacement : replacement.Short) :
    (v.orElse replacement).Short := orElse_of h hreplacement

theorem Short.membersOf (h : v.Short) {name : String}
    (hitems : Validation.membersOf v name = .ok items) : ∀ x ∈ items, x.Short :=
  have hempty : (Value.list []).Short := ⟨Nat.zero_le _, trivial⟩
  ((h.field name).orElse hempty).member hitems

end Playbook.Value
