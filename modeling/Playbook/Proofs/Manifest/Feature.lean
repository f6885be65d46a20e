import Playbook.Proofs.Validation.Collection
import Playbook.Proofs.Value

/-!
# Accepted features

A feature without an id is checked with its directory for an id, and read with
it. In a document that holds itself the id is put at two different places, but
what the reader takes from it is what the check has seen.
-/

namespace Playbook

open Validation (field completed Sound)

/-! ## Fields below a cycle -/

section

variable {name : Nat} {whole : Value}

/-- A text or `null` does not come from a mention of the whole. -/
theorem Value.eq_of_putIn {v x : Value} (hx : x = .null ∨ ∃ s, x = .text s) (hwhole : whole ≠ x)
    (h : putIn name whole v = x) : v = x := by
  cases v with
  | again n =>
      rw [putIn] at h
      split at h
      · exact absurd h hwhole
      · exact h
  | null | text s => exact h
  | _ => obtain rfl | ⟨s, rfl⟩ := hx <;> cases h

theorem Value.get?_putInEntries (es : Entries) (key : String) :
    Entries.get? (putInEntries name whole es) key =
      (Entries.get? es key).map (putIn name whole) := by
  rw [Entries.get?, Entries.get?, Entries.find?, Entries.find?]
  induction es with
  | nil => rfl
  | cons entry es ih =>
      rw [putInEntries, List.find?_cons, List.find?_cons]
      cases entry.1.same (.text key) with
      | true => rfl
      | false => exact ih

/-- A text in a field stays where the whole of which the value is a part is another one. -/
theorem Validation.field_putIn {v : Value} (proper : v.Proper) (hv : v ≠ .again name)
    (hwhole : ∀ s, whole ≠ .text s) {key s : String}
    (h : field (Value.putIn name whole v) key = .text s) (other : Value) :
    field (Value.putIn name other v) key = .text s := by
  obtain ⟨es, hopened, hget⟩ := get?_of_field h
  clear h
  cases v with
  | mapping own =>
      rw [Value.putIn] at hopened ⊢
      cases hopened
      rw [Value.get?_putInEntries, Option.map_eq_some_iff] at hget
      obtain ⟨x, hx, htext⟩ := hget
      obtain rfl := Value.eq_of_putIn (.inr ⟨s, rfl⟩) (hwhole s) htext
      rw [field_of_mapping rfl, Value.get?_putInEntries, hx]
      rfl
  | cycle m content =>
      rw [Value.putIn] at hopened ⊢
      split at hopened
      · rw [if_pos ‹_›, field_of_mapping hopened, hget]
        rfl
      · rw [if_neg ‹_›]
        cases content with
        | mapping own =>
            cases hopened
            rw [Value.get?_putInEntries, Value.get?_putInEntries, Option.map_map,
              Option.map_eq_some_iff] at hget
            obtain ⟨x, hx, htext⟩ := hget
            obtain rfl := Value.eq_of_putIn (.inr ⟨s, rfl⟩) (hwhole s)
              (Value.eq_of_putIn (.inr ⟨s, rfl⟩) (by simp) htext)
            rw [field_of_mapping rfl, Value.get?_putInEntries, Value.get?_putInEntries, hx]
            rfl
        | list items => cases hopened
        | _ => cases proper.1
  | again n =>
      rw [Value.putIn, if_neg] at hopened
      · cases hopened
      · rintro rfl
        exact hv rfl
  | _ =>
      rw [Value.putIn] at hopened
      all_goals cases hopened

end

/-! ## Documents with an id -/

theorem Value.get?_append_ne (es : Entries) {name other : String} (h : name ≠ other) (x : Value) :
    Entries.get? (es ++ [(.text other, x)]) name = Entries.get? es name := by
  have hsame : (Value.text other).same (.text name) = false := by
    rw [same, samePlain]
    · exact beq_false_of_ne (Ne.symm h)
    all_goals nofun
  rw [Entries.get?, Entries.get?, Entries.find?, Entries.find?, List.find?_append,
    List.find?_singleton, hsame]
  simp

theorem Value.get?_append_self {es : Entries} {name : String}
    (h : Entries.hasKey es (.text name) = false) (x : Value) :
    Entries.get? (es ++ [(.text name, x)]) name = some x := by
  have hnone : List.find? (fun e => e.1.same (.text name)) es = none := by
    rw [List.find?_eq_none]
    exact List.any_eq_false.1 h
  rw [Entries.get?, Entries.find?, List.find?_append, hnone, Option.none_or, List.find?_singleton,
    same_refl]
  rfl

theorem Value.get?_eq_none {es : Entries} {name : String}
    (h : Entries.hasKey es (.text name) = false) : Entries.get? es name = none := by
  rw [Entries.get?, Entries.find?, Option.map_eq_none_iff, List.find?_eq_none]
  exact List.any_eq_false.1 h

theorem Value.hasKey_putInEntries {name : Nat} {whole : Value} (es : Entries) (key : Value) :
    Entries.hasKey (putInEntries name whole es) key = Entries.hasKey es key := by
  induction es with
  | nil => rfl
  | cons entry es ih => exact congrArg (entry.1.same key || ·) ih

namespace Validation

variable {id : String} {v : Value}

/-- The two ways to put an id into a document differ only where it holds itself. -/
theorem withId_eq_completed (hv : v.isMapping = true) (id : String) :
    Manifests.withId (.text id) v = completed id v ∨
      ∃ name es, v = .cycle name (.mapping es) ∧ Entries.hasKey es (.text "id") = false := by
  cases v with
  | mapping es => exact .inl rfl
  | cycle name content =>
      cases content with
      | mapping es =>
          cases hkey : Entries.hasKey es (.text "id") with
          | true =>
              refine .inl ?_
              have hkey' : Entries.hasKey (Value.putInEntries name (.cycle name (.mapping es)) es)
                  (.text "id") = true := (Value.hasKey_putInEntries es _).trans hkey
              rw [Manifests.withId, Manifests.withId, if_pos hkey, completed, Value.opened,
                Value.putIn]
              exact (if_pos hkey').symm
          | false => exact .inr ⟨name, es, rfl, hkey⟩
      | _ => cases hv
  | _ => cases hv

theorem proper_completed (proper : v.Proper) : (completed id v).Proper := by
  rw [completed]
  split
  · rename_i es hv
    have hproper := proper.opened
    rw [hv] at hproper
    split
    · exact proper
    · have hentries : Value.ProperEntries es := hproper
      have happended : Value.ProperEntries (es ++ [(.text "id", .text id)]) := by
        clear * - hentries
        induction es with
        | nil => exact ⟨trivial, trivial⟩
        | cons entry es ih => exact ⟨hentries.1, ih hentries.2⟩
      exact happended
  · exact proper

theorem field_completed {name : String} (h : name ≠ "id") (v : Value) (id : String) :
    field (completed id v) name = field v name := by
  rw [completed]
  split
  · rename_i es hv
    split
    · rfl
    · rw [field_of_mapping rfl, field_of_mapping hv, Value.get?_append_ne es h]
  · rfl

section

variable {name : Nat} {es : Entries}

theorem field_of_cycle (name : Nat) (es : Entries) (key : String) :
    field (.cycle name (.mapping es)) key = ((Entries.get? es key).map
      (Value.putIn name (.cycle name (.mapping es)))).getD .null := by
  rw [field_of_mapping rfl, Value.get?_putInEntries]

theorem withId_cycle (h : Entries.hasKey es (.text "id") = false) (id : String) :
    Manifests.withId (.text id) (.cycle name (.mapping es)) =
      .cycle name (.mapping (es ++ [(.text "id", .text id)])) := by
  rw [Manifests.withId, Manifests.withId, if_neg (by simp [h])]

/-- A document that holds itself gets the id that it lacks, outside and inside. -/
theorem field_id_of_cycle (h : Entries.hasKey es (.text "id") = false) (id : String) :
    field (Manifests.withId (.text id) (.cycle name (.mapping es))) "id" = .text id ∧
      field (completed id (.cycle name (.mapping es))) "id" = .text id := by
  have hlacks {whole : Value} :
      ¬ Entries.hasKey (Value.putInEntries name whole es) (.text "id") = true := by
    rw [Value.hasKey_putInEntries, h]
    exact Bool.false_ne_true
  constructor
  · rw [withId_cycle h, field_of_cycle, Value.get?_append_self h]
    rfl
  · rw [completed, Value.opened, Value.putIn]
    simp only [if_neg hlacks]
    rw [field_of_mapping rfl, Value.get?_append_self (by simpa using hlacks)]
    rfl

theorem field_recipe_of_cycle (h : Entries.hasKey es (.text "id") = false) (id : String) :
    field (Manifests.withId (.text id) (.cycle name (.mapping es))) "recipe" =
      ((Entries.get? es "recipe").map (Value.putIn name
        (Manifests.withId (.text id) (.cycle name (.mapping es))))).getD .null := by
  rw [withId_cycle h, field_of_cycle, Value.get?_append_ne es (by decide)]

end

theorem field_eq_of_ok {name : String} {x : Value} (h : v.field name = .ok x) :
    field v name = x := by
  obtain ⟨es, hes, h⟩ := Attempt.of_bind_ok h
  cases h
  rw [Value.entries] at hes
  split at hes
  · cases hes
    rename_i hv
    rw [field_of_mapping hv]
  · cases hes

theorem field_eq_of_required {name : String} {x : Value} (h : v.required name = .ok x) :
    field v name = x := by
  rw [Value.required] at h
  split at h
  · rename_i es hv
    split at h
    · cases h
      rename_i hx
      rw [field_of_mapping hv, hx]
      rfl
    · cases h
  · cases h

end Validation

/-! ## What the reader takes -/

theorem RecipeBinding.of_ofValue? {v : Value} {binding : RecipeBinding}
    (h : ofValue? v = .ok (some binding)) : field v "id" = binding.id := by
  unfold ofValue? at h
  split at h
  · cases h
  · obtain ⟨id, hid, h⟩ := Attempt.of_bind_ok h
    split at h
    · cases h
    · obtain ⟨_, _, h⟩ := Attempt.of_bind_ok h
      obtain ⟨_, _, h⟩ := Attempt.of_bind_ok h
      obtain ⟨_, _, h⟩ := Attempt.of_bind_ok h
      obtain ⟨_, _, h⟩ := Attempt.of_bind_ok h
      cases h
      exact Validation.field_eq_of_ok hid

theorem Feature.of_ofValue {v : Value} {feature : Feature} (h : ofValue v = .ok feature) :
    field v "id" = feature.id ∧
      RecipeBinding.ofValue? (field v "recipe") = .ok feature.recipe := by
  obtain ⟨raw, hraw, h⟩ := Attempt.of_bind_ok h
  obtain ⟨recipe, hrecipe, h⟩ := Attempt.of_bind_ok h
  obtain ⟨id, hid, h⟩ := Attempt.of_bind_ok h
  obtain ⟨_, _, h⟩ := Attempt.of_bind_ok h
  obtain ⟨_, _, h⟩ := Attempt.of_bind_ok h
  obtain ⟨_, _, h⟩ := Attempt.of_bind_ok h
  obtain ⟨_, _, h⟩ := Attempt.of_bind_ok h
  obtain ⟨_, _, h⟩ := Attempt.of_bind_ok h
  obtain ⟨_, _, h⟩ := Attempt.of_bind_ok h
  cases h
  rw [Validation.field_eq_of_ok hraw]
  exact ⟨Validation.field_eq_of_required hid, hrecipe⟩

namespace Validation

variable {id directory : String} {v : Value}

/-- The recipe that is read is the one that was checked. -/
theorem Sound.recipe (h : Sound .feature (completed directory v) id) (proper : v.Proper)
    (hv : v.isMapping = true) :
    field (Manifests.withId (.text directory) v) "recipe" = .null ∨
      ∃ recipe, recipe ≠ "" ∧ (field v "recipe").isMapping = true ∧
        field (field v "recipe") "id" = .text recipe ∧
        field (field (Manifests.withId (.text directory) v) "recipe") "id" = .text recipe := by
  obtain ⟨fits, -⟩ := Fits.of_objectWith (proper_completed proper)
    (ManifestKind.accepts_of_schemaErrors h.accepted)
  have hsame : field (completed directory v) "recipe" = field v "recipe" :=
    field_completed (by decide) v directory
  rcases fits.field_cases "recipe" rfl with hnull | ⟨haccepts, hproper⟩
  · refine .inl ?_
    rcases withId_eq_completed hv directory with heq | ⟨name, es, rfl, hkey⟩
    · rw [heq, hnull]
    · rw [hsame, field_of_cycle] at hnull
      rw [field_recipe_of_cycle hkey]
      cases hraw : Entries.get? es "recipe" with
      | none => rfl
      | some raw =>
          rw [hraw] at hnull
          obtain rfl := Value.eq_of_putIn (.inl rfl) (by simp) hnull
          rfl
  · obtain ⟨fits, hrequired⟩ := Fits.of_objectWith hproper haccepts
    obtain ⟨recipe, hfilled, hid, -⟩ := fits.requiredText "id" rfl hrequired List.mem_cons_self
    obtain ⟨es, hopened⟩ := fits.mapping
    rw [hsame] at hid hopened hproper
    refine .inr ⟨recipe, hfilled, Value.isMapping_of_opened hopened, hid, ?_⟩
    rcases withId_eq_completed hv directory with heq | ⟨name, es, rfl, hkey⟩
    · rw [heq, hsame, hid]
    · rw [field_of_cycle] at hid
      rw [field_recipe_of_cycle hkey]
      cases hraw : Entries.get? es "recipe" with
      | none =>
          rw [hraw] at hid
          cases hid
      | some raw =>
          rw [hraw, Option.map_some, Option.getD_some] at hid
          have hproper : raw.Proper := by
            obtain ⟨key, hmem⟩ := Value.mem_of_get? hraw
            exact Value.properEntries_iff.1 proper.2 _ hmem
          refine field_putIn hproper ?_ (by simp) hid _
          -- the document itself has no id that its recipe could have
          rintro rfl
          rw [Value.putIn, if_pos rfl, field_of_cycle, Value.get?_eq_none hkey] at hid
          cases hid

/-- The id that is read is the one that was checked. -/
theorem Sound.field_withId {kind : ManifestKind} (h : Sound kind (completed directory v) id)
    (proper : v.Proper) (hv : v.isMapping = true) :
    field (Manifests.withId (.text directory) v) "id" = .text id := by
  have hown := (h.id_eq (proper_completed proper)).2
  rcases withId_eq_completed hv directory with heq | ⟨name, es, rfl, hkey⟩
  · rw [heq, hown]
  · obtain ⟨hread, hchecked⟩ := @field_id_of_cycle name es hkey directory
    rw [hread, ← hchecked, hown]

theorem Sound.feature (h : Sound .feature (completed directory v) id) (proper : v.Proper)
    (hv : v.isMapping = true) {feature : Feature}
    (hread : Feature.ofValue (Manifests.withId (.text directory) v) = .ok feature) :
    feature.id = .text id ∧ ∀ binding ∈ feature.recipe, ∃ recipe, recipe ≠ "" ∧
      binding.id = .text recipe ∧ (field v "recipe").isMapping = true ∧
        field (field v "recipe") "id" = .text recipe := by
  obtain ⟨hid, hrecipe⟩ := Feature.of_ofValue hread
  refine ⟨?_, fun binding hbinding => ?_⟩
  · rw [← hid, h.field_withId proper hv]
  · rcases h.recipe proper hv with hnone | ⟨recipe, hfilled, hmapping, hchecked, hrecipe'⟩
    · rw [hnone] at hrecipe
      cases Except.ok.inj hrecipe ▸ hbinding
    · rw [hbinding] at hrecipe
      rw [RecipeBinding.of_ofValue? hrecipe] at hrecipe'
      exact ⟨recipe, hfilled, hrecipe', hmapping, hchecked⟩

end Validation

end Playbook
