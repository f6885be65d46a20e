import Playbook.Proofs.Settings.Overlay

/-!
# What stands at a path of keys

A path of keys leads from mapping to mapping. Where both of two joined values
have something at a path, their overlay has the join of the two there; all
that it has anywhere is shaped as something that one of them has in the place.
-/

namespace Playbook.Value

open Entries (joinedAt of_joinedAt)

/-- What a path of keys leads to, from mapping to mapping. -/
def at? (v : Value) : List Value → Option Value
  | [] => some v
  | key :: path =>
      match v.opened with
      | .mapping es => (Entries.find? es key).bind fun held => held.at? path
      | _ => none

def listAt? (v : Value) (path : List Value) : Option (List Value) :=
  (v.at? path).bind fun held =>
    match held.opened with
    | .list items => some items
    | _ => none

/-- Wherever both values have something, the two are of one shape. -/
def Agrees (v w : Value) : Prop :=
  ∀ path : List Value, (∀ key ∈ path, key.IsKey) → ∀ held other, v.at? path = some held →
    w.at? path = some other → held.shape = other.shape

variable {lower upper v w key : Value} {es fs : Entries} {path : List Value}

theorem at?_cons (hes : v.opened = .mapping es) (key : Value) (path : List Value) :
    v.at? (key :: path) = (Entries.find? es key).bind fun held => held.at? path := by
  rw [at?, hes]

theorem exists_of_at?_cons {held : Value} (h : v.at? (key :: path) = some held) :
    ∃ es within, v.opened = .mapping es ∧ Entries.find? es key = some within ∧
      within.at? path = some held := by
  rw [at?] at h
  split at h
  · rename_i es hes
    obtain ⟨within, hfound, hwithin⟩ := Option.bind_eq_some_iff.1 h
    exact ⟨es, within, hes, hfound, hwithin⟩
  · cases h

theorem listAt?_eq_some_iff {items : List Value} :
    v.listAt? path = some items ↔ ∃ held, v.at? path = some held ∧ held.opened = .list items := by
  rw [listAt?, Option.bind_eq_some_iff]
  refine exists_congr fun held => and_congr_right fun _ => ?_
  split
  · rename_i hitems
    rw [hitems]
    simp
  · rename_i hitems
    simpa using fun h => hitems items h

/-! ## Values that agree -/

theorem Agrees.shape_eq (h : v.Agrees w) : v.shape = w.shape :=
  h [] (by simp) v w rfl rfl

theorem Agrees.held {held other : Value} (h : v.Agrees w) (hes : v.opened = .mapping es)
    (hfs : w.opened = .mapping fs) (hkey : key.IsKey)
    (hheld : Entries.find? es key = some held) (hother : Entries.find? fs key = some other) :
    held.Agrees other := by
  intro path hpath inner outer hinner houter
  refine h (key :: path) (List.forall_mem_cons.2 ⟨hkey, hpath⟩) inner outer ?_ ?_
  · rw [at?_cons hes, hheld]
    exact hinner
  · rw [at?_cons hfs, hother]
    exact houter

/-! ## Paths of an overlay -/

namespace Joinable

/-- An overlay of mappings has under a key what both have there, joined. -/
theorem find?_overlay (h : Joinable lower upper) (hes : lower.opened = .mapping es)
    (hfs : upper.opened = .mapping fs) (hkey : key.IsKey) :
    Entries.find? (Entries.joinEntries overlay es fs) key =
      joinedAt overlay (Entries.find? es key) (Entries.find? fs key) :=
  Entries.find?_joinEntries (h.lowerTidy.of_opened hes).1.isKey (h.upperTidy.of_opened hfs).1 hkey

theorem at?_overlay {held other : Value} (h : Joinable lower upper)
    (hpath : ∀ key ∈ path, key.IsKey)
    (hheld : lower.at? path = some held) (hother : upper.at? path = some other) :
    Joinable held other ∧ (lower.overlay upper).at? path = some (held.overlay other) := by
  induction path generalizing lower upper with
  | nil =>
      cases hheld
      cases hother
      exact ⟨h, rfl⟩
  | cons key path ih =>
      obtain ⟨hkey, hpath⟩ := List.forall_mem_cons.1 hpath
      obtain ⟨es, below, hes, hbelow, hheld⟩ := exists_of_at?_cons hheld
      obtain ⟨fs, above, hfs, habove, hother⟩ := exists_of_at?_cons hother
      obtain ⟨_, he, -⟩ := Entries.mem_of_find? hbelow
      obtain ⟨_, hf, -⟩ := Entries.mem_of_find? habove
      rw [h.overlay_mapping hes hfs, at?_cons rfl, h.find?_overlay hes hfs hkey, hbelow, habove]
      exact ih (h.held hes hfs he hf) hpath hheld hother

/-- Nothing in an overlay is of a shape that neither value has in the place. -/
theorem of_at?_overlay (h : Joinable lower upper) (hpath : ∀ key ∈ path, key.IsKey)
    (hv : (lower.overlay upper).at? path = some v) :
    ∃ w, (lower.at? path = some w ∨ upper.at? path = some w) ∧ w.shape = v.shape := by
  induction path generalizing lower upper with
  | nil =>
      cases hv
      exact ⟨upper, .inr rfl, h.shape_overlay.symm⟩
  | cons key path ih =>
      obtain ⟨hkey, hpath⟩ := List.forall_mem_cons.1 hpath
      rcases h.overlay_cases with ⟨es, fs, hes, hfs, heq⟩ | ⟨xs, ys, -, -, heq⟩ | ⟨-, heq⟩
      · rw [heq, at?_cons rfl, h.find?_overlay hes hfs hkey] at hv
        obtain ⟨inner, hinner, hv⟩ := Option.bind_eq_some_iff.1 hv
        rw [at?_cons hes, at?_cons hfs]
        rcases of_joinedAt hinner with hbelow | habove | ⟨below, above, hbelow, habove, rfl⟩
        · exact ⟨v, .inl (Option.bind_eq_some_iff.2 ⟨inner, hbelow, hv⟩), rfl⟩
        · exact ⟨v, .inr (Option.bind_eq_some_iff.2 ⟨inner, habove, hv⟩), rfl⟩
        · obtain ⟨_, he, -⟩ := Entries.mem_of_find? hbelow
          obtain ⟨_, hf, -⟩ := Entries.mem_of_find? habove
          rw [hbelow, habove]
          exact ih (h.held hes hfs he hf) hpath hv
      · rw [heq] at hv
        cases hv
      · rw [heq] at hv
        exact ⟨v, .inr hv, rfl⟩

end Joinable

/-! ## Lists at a path -/

/--
Two lists at one path are united: what is new comes behind what is there, in
its order, and nothing is lost. A repetition among the new values stays, and
only then is the united list not the first of each of all the values.
-/
theorem listAt_overlay (h : Joinable lower upper) (hpath : ∀ key ∈ path, key.IsKey)
    {xs ys : List Value} (hxs : lower.listAt? path = some xs) (hys : upper.listAt? path = some ys) :
    (lower.overlay upper).listAt? path = some (addMissing xs ys) ∧
    (∀ v ∈ addMissing xs ys, v ∈ xs ++ ys) ∧
    (∀ v ∈ xs ++ ys, ∃ united ∈ addMissing xs ys, united.same v = true) ∧
    (AllDiffer (addMissing xs ys) ↔
      AllDiffer xs ∧ AllDiffer (ys.filter fun y => !xs.any (·.same y))) ∧
    (AllDiffer xs → (addMissing xs ys = firsts (xs ++ ys) ↔
      AllDiffer (ys.filter fun y => !xs.any (·.same y)))) := by
  rw [listAt?_eq_some_iff] at hxs hys
  obtain ⟨held, hheld, hxs⟩ := hxs
  obtain ⟨other, hother, hys⟩ := hys
  obtain ⟨hjoinable, hoverlay⟩ := h.at?_overlay hpath hheld hother
  refine ⟨listAt?_eq_some_iff.2 ⟨_, hoverlay, ?_⟩, fun v hv => ?_, fun v hv => ?_,
    allDiffer_addMissing_iff, addMissing_eq_firsts_iff⟩
  · rw [hjoinable.overlay_list hxs hys]
    rfl
  · exact List.mem_append.2 (mem_addMissing hv)
  · rcases List.mem_append.1 hv with hv | hv
    · exact ⟨v, List.mem_append_left _ hv, same_refl v⟩
    · exact exists_same_of_mem hv

/-- A layer with a list of texts under one key. -/
def textLayer (name : String) (texts : List String) : Value :=
  .mapping [(.text name, .list (texts.map .text))]

theorem tidy_texts (texts : List String) : (Value.list (texts.map .text)).Tidy :=
  tidy_list.2 (List.forall_mem_map.2 fun _ _ => trivial)

theorem grounded_texts (texts : List String) : (Value.list (texts.map .text)).Grounded :=
  grounded_list.2 (List.forall_mem_map.2 fun _ _ => trivial)

theorem tidy_textLayer (name : String) (texts : List String) : (textLayer name texts).Tidy :=
  tidy_mapping.2 ⟨AreKeys.cons_iff.2 ⟨.text name, by simp, .nil⟩,
    List.forall_mem_singleton.2 (tidy_texts texts)⟩

theorem grounded_textLayer (name : String) (texts : List String) :
    (textLayer name texts).Grounded :=
  grounded_mapping.2 (List.forall_mem_singleton.2 (grounded_texts texts))

theorem listAt?_textLayer (name : String) (texts : List String) :
    (textLayer name texts).listAt? [.text name] = some (texts.map .text) := by
  simp [textLayer, listAt?, at?, opened, Entries.find?, same, samePlain]

/-- A tool that the upper layer lists twice is there twice. -/
theorem listAt_overlay_tools :
    AllDiffer (["claude"].map .text) ∧
    ((textLayer "tools" ["claude"]).overlay (textLayer "tools" ["cursor", "cursor"])).listAt?
      [.text "tools"] = some (["claude", "cursor", "cursor"].map .text) ∧
    ¬ AllDiffer (["claude", "cursor", "cursor"].map .text) := by
  obtain ⟨hlist, -, -, hdiffer, -⟩ := listAt_overlay
    ⟨tidy_textLayer "tools" ["claude"], tidy_textLayer "tools" ["cursor", "cursor"],
      .inl (grounded_textLayer _ _)⟩
    (by simpa using IsKey.text "tools") (listAt?_textLayer _ _) (listAt?_textLayer _ _)
  have hunited : addMissing (["claude"].map .text) (["cursor", "cursor"].map .text) =
      ["claude", "cursor", "cursor"].map .text := by
    simp [addMissing, same, samePlain]
  refine ⟨List.pairwise_singleton _ _, hlist.trans (congrArg some hunited), ?_⟩
  rw [← hunited, hdiffer]
  simp [AllDiffer, same, samePlain]

end Playbook.Value
