import Playbook.Proofs.Value.Keys
import Playbook.Proofs.Value.Reading
import Playbook.Value.Arrangement

/-!
# Values with numbers in their usual form

A value is normal if each number inside of it is in its usual form, however
deep it lies. What a normal value holds is normal, also after it was opened,
and as a key it is in the form in which keys can be compared.
-/

namespace Playbook.Value

mutual

def Normal : Value → Prop
  | .float x => x.Canonical
  | .list items | .tuple items | .set items => AllNormal items
  | .mapping entries => EntriesNormal entries
  | .cycle _ content => Normal content
  | _ => True

def AllNormal : List Value → Prop
  | [] => True
  | x :: items => Normal x ∧ AllNormal items

def EntriesNormal : List (Value × Value) → Prop
  | [] => True
  | (k, v) :: entries => Normal k ∧ Normal v ∧ EntriesNormal entries

end

variable {v : Value} {es : Entries} {items : List Value}

mutual

theorem Normal.canonical : ∀ {v : Value}, v.Normal → v.Canonical
  | .float _, h => h
  | .tuple items, h => @AllNormal.canonical items h
  | .null, _ | .bool _, _ | .int _, _ | .text _, _ | .bytes _, _ | .day _, _ | .instant _, _
  | .list _, _ | .set _, _ | .mapping _, _ | .cycle .., _ | .again _, _ => trivial

theorem AllNormal.canonical : ∀ {items : List Value}, AllNormal items → AllCanonical items
  | [], _ => trivial
  | _ :: _, h => ⟨h.1.canonical, AllNormal.canonical h.2⟩

end

/-! ## Parts -/

theorem allNormal_iff : AllNormal items ↔ ∀ x ∈ items, x.Normal := by
  induction items with
  | nil => simp [AllNormal]
  | cons x items ih => simp [AllNormal, ih]

theorem entriesNormal_iff :
    EntriesNormal es ↔ ∀ entry ∈ es, entry.1.Normal ∧ entry.2.Normal := by
  induction es with
  | nil => simp [EntriesNormal]
  | cons entry es ih => simp [EntriesNormal, ih, and_assoc]

theorem hereditary_normal : Hereditary Normal where
  list _ h := ⟨allNormal_iff.1 h, fun _ ho => allNormal_iff.2 (List.forall_mem_map.2 ho)⟩
  tuple _ h := ⟨allNormal_iff.1 h, fun _ ho => allNormal_iff.2 (List.forall_mem_map.2 ho)⟩
  mapping _ h := ⟨fun entry hentry => (entriesNormal_iff.1 h entry hentry).2, fun _ ho =>
    entriesNormal_iff.2 (List.forall_mem_map.2 fun entry hentry =>
      ⟨(entriesNormal_iff.1 h entry hentry).1, ho entry hentry⟩)⟩
  cycle _ _ h := ⟨h, fun _ _ ho => ho⟩

theorem Normal.required (h : v.Normal) {name : String} {x : Value}
    (hx : v.required name = .ok x) : x.Normal := by
  unfold Value.required at hx
  split at hx
  · split at hx
    · cases hx
      exact hereditary_normal.get? h ‹_› ‹_›
    · cases hx
  · cases hx

theorem Normal.field (h : v.Normal) {name : String} {x : Value} (hx : v.field name = .ok x) :
    x.Normal := hereditary_normal.field trivial h hx

theorem Normal.orElse {replacement : Value} (h : v.Normal) (hreplacement : replacement.Normal) :
    (v.orElse replacement).Normal := orElse_of h hreplacement

theorem Normal.member (h : v.Normal) (hitems : v.members = .ok items) : ∀ x ∈ items, x.Normal :=
  hereditary_normal.member (fun _ hset => allNormal_iff.1 hset)
    (fun _ hmapping entry hentry => (entriesNormal_iff.1 hmapping entry hentry).1)
    (fun _ => trivial) (fun _ => trivial) h hitems

/-! ## Sets -/

theorem mem_of_mem_foldl_putMember {pointed : List (Value × Nat)} {x : Value} :
    ∀ {table : Array (Option Value)}, some x ∈ (pointed.foldl putMember table).toList →
      some x ∈ table.toList ∨ x ∈ pointed.map (·.1) := by
  induction pointed with
  | nil => exact fun h => .inl h
  | cons member pointed ih =>
      intro table h
      rcases ih h with h | h
      · rw [putMember, Array.toList_setIfInBounds] at h
        rcases List.mem_or_eq_of_mem_set h with h | h
        · exact .inl h
        · exact .inr (List.mem_cons.2 (.inl (Option.some.inj h)))
      · exact .inr (List.mem_cons_of_mem _ h)

theorem map_fst_of_pointed {pointed : List (Value × Nat)}
    (h : items.mapM (fun v => (pointer? v).map fun pointer => (v, pointer)) = some pointed) :
    pointed.map (·.1) = items := by
  induction items generalizing pointed with
  | nil =>
      cases h
      rfl
  | cons x items ih =>
      rw [List.mapM_cons] at h
      obtain ⟨member, hmember, h⟩ := Option.bind_eq_some_iff.1 h
      obtain ⟨rest, hrest, h⟩ := Option.bind_eq_some_iff.1 h
      obtain ⟨pointer, -, rfl⟩ := Option.map_eq_some_iff.1 hmember
      cases h
      rw [List.map_cons, ih hrest]

/-- A set holds no other members in its own order. -/
theorem mem_of_mem_arranged {x : Value} (h : x ∈ arranged items) : x ∈ items := by
  unfold arranged at h
  split at h
  · exact h
  · rename_i pointed hpointed
    obtain ⟨place, hplace, rfl⟩ := List.mem_filterMap.1 h
    rcases mem_of_mem_foldl_putMember hplace with hplace | hplace
    · simp at hplace
    · rwa [map_fst_of_pointed hpointed] at hplace

end Playbook.Value
