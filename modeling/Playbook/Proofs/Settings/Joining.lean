import Playbook.Proofs.Value.Equality
import Playbook.Settings.Overlay

/-!
# Joined lists and mappings

The keys of a joined mapping are those of the lower one and then the new ones,
and under each key is the join of what was there with what goes over it. Two
mappings with the same keys in the same order that hold the same under each of
them are one, so that the laws of overlays come down to laws of the united
lists of keys and of what is joined under one key.
-/

namespace Playbook

open Value (AreKeys IsKey addMissing)

/-! ## United lists -/

namespace Value

variable {xs ys zs : List Value}

theorem addMissing_nil (xs : List Value) : addMissing xs [] = xs := List.append_nil xs

/-- What is in a united list was in one of the lists. -/
theorem mem_addMissing {v : Value} (h : v ∈ addMissing xs ys) : v ∈ xs ∨ v ∈ ys :=
  (List.mem_append.1 h).imp_right fun h => (List.mem_filter.1 h).1

/-- A list has everything that was added to it. -/
theorem addMissing_eq_self (h : ∀ y ∈ ys, ∃ x ∈ xs, x.same y = true) : addMissing xs ys = xs := by
  rw [addMissing, List.filter_eq_nil_iff.2, List.append_nil]
  intro y hy
  simpa using h y hy

theorem exists_same_of_mem {v : Value} (h : v ∈ ys) : ∃ z ∈ addMissing xs ys, z.same v = true := by
  cases hmissing : xs.any (·.same v) with
  | true =>
      obtain ⟨x, hx, hsame⟩ := List.any_eq_true.1 hmissing
      exact ⟨x, List.mem_append_left _ hx, hsame⟩
  | false =>
      exact ⟨v, List.mem_append_right _ (List.mem_filter.2 ⟨h, by simp [hmissing]⟩), same_refl v⟩

theorem addMissing_self (xs : List Value) : addMissing xs xs = xs :=
  addMissing_eq_self fun x hx => ⟨x, hx, same_refl x⟩

theorem addMissing_addMissing_self : addMissing (addMissing xs ys) ys = addMissing xs ys :=
  addMissing_eq_self fun _ hy => exists_same_of_mem hy

theorem any_addMissing (htrans : ∀ x ∈ xs, ∀ y ∈ ys, ∀ z ∈ zs,
    x.same y = true → y.same z = true → x.same z = true) {z : Value} (hz : z ∈ zs) :
    (addMissing xs ys).any (·.same z) = (xs.any (·.same z) || ys.any (·.same z)) := by
  rw [Bool.eq_iff_iff, Bool.or_eq_true, List.any_eq_true, List.any_eq_true, List.any_eq_true]
  constructor
  · rintro ⟨v, hv, hsame⟩
    exact (mem_addMissing hv).imp (fun hv => ⟨v, hv, hsame⟩) fun hv => ⟨v, hv, hsame⟩
  · rintro (⟨x, hx, hsame⟩ | ⟨y, hy, hsame⟩)
    · exact ⟨x, List.mem_append_left _ hx, hsame⟩
    · -- a value of the second list may have given way to one of the first
      by_cases hmissing : ∃ x ∈ xs, x.same y = true
      · obtain ⟨x, hx, hxy⟩ := hmissing
        exact ⟨x, List.mem_append_left _ hx, htrans x hx y hy z hz hxy hsame⟩
      · refine ⟨y, List.mem_append_right _ (List.mem_filter.2 ⟨hy, ?_⟩), hsame⟩
        simpa using hmissing

theorem addMissing_assoc (htrans : ∀ x ∈ xs, ∀ y ∈ ys, ∀ z ∈ zs,
    x.same y = true → y.same z = true → x.same z = true) :
    addMissing (addMissing xs ys) zs = addMissing xs (addMissing ys zs) := by
  have hadded : (zs.filter fun z => !(addMissing xs ys).any (·.same z)) =
      (zs.filter fun z => !ys.any (·.same z)).filter fun z => !xs.any (·.same z) := by
    rw [List.filter_filter]
    refine List.filter_congr fun z hz => ?_
    rw [any_addMissing htrans hz, Bool.not_or]
  calc addMissing (addMissing xs ys) zs
      = xs ++ (ys.filter fun y => !xs.any (·.same y)) ++
          ((zs.filter fun z => !ys.any (·.same z)).filter fun z => !xs.any (·.same z)) := by
        rw [addMissing, hadded, addMissing]
    _ = addMissing xs (addMissing ys zs) := by
        rw [addMissing, addMissing, List.filter_append, List.append_assoc]

theorem addMissing_addMissing_singleton {y : Value} (h : ∀ v ∈ ys, y.same v = false) :
    addMissing (addMissing xs [y]) ys = addMissing xs (y :: ys) := by
  cases hmissing : xs.any (·.same y) with
  | true => simp [addMissing, hmissing]
  | false =>
      have hsame : (ys.filter fun v => !(xs ++ [y]).any (·.same v)) =
          ys.filter fun v => !xs.any (·.same v) :=
        List.filter_congr fun v hv => by simp [h v hv]
      have hfirst : addMissing xs [y] = xs ++ [y] := by simp [addMissing, hmissing]
      rw [hfirst, addMissing, hsame, addMissing, List.filter_cons, hmissing]
      simp

/-- A united list has no value twice if the lower one has not and nothing new comes twice. -/
theorem allDiffer_addMissing_iff : AllDiffer (addMissing xs ys) ↔
    AllDiffer xs ∧ AllDiffer (ys.filter fun y => !xs.any (·.same y)) := by
  unfold AllDiffer addMissing
  rw [List.pairwise_append]
  refine and_congr_right fun _ => and_iff_left fun x hx y hy => ?_
  have hnew := (List.mem_filter.1 hy).2
  rw [Bool.not_eq_true', List.any_eq_false] at hnew
  simpa using hnew x hx

theorem foldl_addNew_of_allDiffer
    (h : AllDiffer (ys.filter fun y => !xs.any (·.same y))) :
    ys.foldl addNew xs = addMissing xs ys := by
  induction ys generalizing xs with
  | nil => exact (addMissing_nil xs).symm
  | cons y ys ih =>
      rw [List.foldl_cons, addNew]
      cases hmissing : xs.any (·.same y) with
      | true =>
          have hfilter : ((y :: ys).filter fun y => !xs.any (·.same y)) =
              ys.filter fun y => !xs.any (·.same y) := by
            rw [List.filter_cons_of_neg (by simp [hmissing])]
          rw [hfilter] at h
          rw [if_pos rfl, ih h, addMissing, addMissing, hfilter]
      | false =>
          rw [List.filter_cons_of_pos (by simp [hmissing])] at h
          obtain ⟨hfirst, hrest⟩ := List.pairwise_cons.1 h
          -- nothing that is new to the list is the same as its new last value
          have hfilter : (ys.filter fun v => !(xs ++ [y]).any (·.same v)) =
              ys.filter fun v => !xs.any (·.same v) := by
            refine List.filter_congr fun v hv => ?_
            cases hnew : xs.any (·.same v) with
            | true => simp [hnew]
            | false => simp [hnew, hfirst v (List.mem_filter.2 ⟨hv, by simp [hnew]⟩)]
          rw [if_neg Bool.false_ne_true, ih (hfilter ▸ hrest), addMissing, hfilter, addMissing,
            List.filter_cons_of_pos (by simp [hmissing]), List.append_assoc]
          rfl

theorem firsts_of_allDiffer (h : AllDiffer xs) : firsts xs = xs := by
  have hfilter : (xs.filter fun x => !([] : List Value).any (·.same x)) = xs := by simp
  rw [firsts, foldl_addNew_of_allDiffer (hfilter.symm ▸ h), addMissing, hfilter, List.nil_append]

/-- A united list is the first ones of both lists if what is new does not come twice. -/
theorem addMissing_eq_firsts_iff (h : AllDiffer xs) :
    addMissing xs ys = firsts (xs ++ ys) ↔
      AllDiffer (ys.filter fun y => !xs.any (·.same y)) := by
  constructor
  · intro heq
    have hdiffer : AllDiffer (addMissing xs ys) := heq ▸ pairwise_firsts _
    exact (allDiffer_addMissing_iff.1 hdiffer).2
  · intro hnew
    rw [firsts, List.foldl_append, ← firsts, firsts_of_allDiffer h,
      foldl_addNew_of_allDiffer hnew]

theorem AreKeys.addMissing (hxs : AreKeys xs) (hys : AreKeys ys) : AreKeys (addMissing xs ys) :=
  ⟨fun k hk => (mem_addMissing hk).elim (hxs.isKey k) (hys.isKey k),
    allDiffer_addMissing_iff.2 ⟨hxs.differ, hys.differ.sublist List.filter_sublist⟩⟩

end Value

/-! ## Keyed entries -/

namespace Entries

variable {es fs : Entries} {k k' v : Value}

theorem find?_cons (entry : Value × Value) (es : Entries) (k : Value) :
    find? (entry :: es) k = if entry.1.same k then some entry.2 else find? es k := by
  rw [find?, List.find?_cons]
  cases entry.1.same k <;> rfl

theorem mem_of_find? (h : find? es k = some v) : ∃ key, (key, v) ∈ es ∧ key.same k = true := by
  obtain ⟨entry, hentry, rfl⟩ := Option.map_eq_some_iff.1 h
  exact ⟨entry.1, List.mem_of_find?_eq_some hentry, by simpa using List.find?_some hentry⟩

theorem find?_eq_none_iff : find? es k = none ↔ ∀ key ∈ es.map Prod.fst, key.same k = false := by
  rw [find?, Option.map_eq_none_iff, List.find?_eq_none]
  simp

theorem find?_of_mem (hes : AreKeys (es.map Prod.fst)) {e : Value × Value} (h : e ∈ es) :
    find? es e.1 = some e.2 := by
  induction es with
  | nil => cases h
  | cons first es ih =>
      obtain ⟨hfirst, hother, hrest⟩ := AreKeys.cons_iff.1 hes
      rw [find?_cons]
      rcases List.mem_cons.1 h with rfl | h
      · rw [Value.same_refl, if_pos rfl]
      · have hmem := List.mem_map_of_mem (f := Prod.fst) h
        rw [if_neg fun hsame =>
          hother _ hmem ((hfirst.same_iff (hrest.isKey _ hmem)).1 hsame), ih hrest h]

/-- The same keys lead to the same. -/
theorem find?_congr (hes : ∀ key ∈ es.map Prod.fst, key.IsKey) (hk : k.IsKey) (hk' : k'.IsKey)
    (h : k.same k' = true) : find? es k = find? es k' := by
  induction es with
  | nil => rfl
  | cons entry es ih =>
      obtain ⟨hentry, hrest⟩ := List.forall_mem_cons.1 hes
      rw [find?_cons, find?_cons, ih hrest, hentry.same_congr hk hk' h]

/-- Two mappings with the same keys in order that hold the same under each of them are one. -/
theorem ext (hes : AreKeys (es.map Prod.fst)) (hkeys : es.map Prod.fst = fs.map Prod.fst)
    (h : ∀ key ∈ es.map Prod.fst, find? es key = find? fs key) : es = fs := by
  induction es generalizing fs with
  | nil =>
      cases fs with
      | nil => rfl
      | cons => cases hkeys
  | cons e es ih =>
      cases fs with
      | nil => cases hkeys
      | cons f fs =>
          obtain ⟨hkey, hrest⟩ := List.cons.inj hkeys
          obtain ⟨he, hother, hes⟩ := AreKeys.cons_iff.1 hes
          have hvalue := h e.1 List.mem_cons_self
          rw [find?_cons, find?_cons, ← hkey, Value.same_refl, if_pos rfl, if_pos rfl] at hvalue
          rw [Prod.ext hkey (Option.some.inj hvalue), ih hes hrest]
          intro key hmem
          have hdiffers : e.1.same key = false := Bool.eq_false_iff.2 fun hsame =>
            hother key hmem ((he.same_iff (hes.isKey key hmem)).1 hsame)
          have hfound := h key (List.mem_cons_of_mem _ hmem)
          rwa [find?_cons, find?_cons, ← hkey, hdiffers] at hfound

/-! ## Insertion -/

theorem map_fst_insert (es : Entries) (k v : Value) :
    (insert es k v).map Prod.fst = addMissing (es.map Prod.fst) [k] := by
  induction es with
  | nil => rfl
  | cons e es ih =>
      rw [insert]
      cases hsame : e.1.same k with
      | true => simp [addMissing, hsame]
      | false =>
          rw [if_neg Bool.false_ne_true, List.map_cons, ih]
          simp [addMissing, List.filter_singleton, hsame]

theorem find?_insert (hes : ∀ key ∈ es.map Prod.fst, key.IsKey) (hk : k.IsKey) (hk' : k'.IsKey) :
    find? (insert es k v) k' = if k.same k' then some v else find? es k' := by
  induction es with
  | nil => rw [insert, find?_cons]
  | cons e es ih =>
      obtain ⟨he, hrest⟩ := List.forall_mem_cons.1 hes
      rw [insert]
      cases hsame : e.1.same k with
      | true =>
          have hkeys := (he.same_iff hk).1 hsame
          have hcongr : e.1.same k' = k.same k' := by
            rw [Bool.eq_iff_iff, he.same_iff hk', hk.same_iff hk', hkeys]
          rw [if_pos rfl, find?_cons, find?_cons, hcongr]
          split <;> rfl
      | false =>
          rw [if_neg Bool.false_ne_true, find?_cons, find?_cons, ih hrest]
          cases hk₁ : e.1.same k' with
          | false => rfl
          | true =>
              have hk₂ : k.same k' = false := Bool.eq_false_iff.2 fun h => by
                rw [(he.same_iff hk).2 (((he.same_iff hk').1 hk₁).trans
                  ((hk.same_iff hk').1 h).symm)] at hsame
                cases hsame
              simp [hk₂]

/-! ## Joined entries -/

/-- What is under a key when something of its own goes over it, or nothing does. -/
def joinedAt (join : Value → Value → Value) : Option Value → Option Value → Option Value
  | some lower, some upper => some (join lower upper)
  | lower, none => lower
  | none, upper => upper

theorem joinedAt_none (join : Value → Value → Value) (lower : Option Value) :
    joinedAt join lower none = lower := by
  cases lower <;> rfl

theorem of_joinedAt {join : Value → Value → Value} {first second : Option Value}
    (h : joinedAt join first second = some v) : first = some v ∨ second = some v ∨
      ∃ lower upper, first = some lower ∧ second = some upper ∧ v = join lower upper := by
  cases first with
  | none => exact .inr (.inl (by cases second <;> exact h))
  | some lower =>
      cases second with
      | none => exact .inl h
      | some upper => exact .inr (.inr ⟨lower, upper, rfl, rfl, (Option.some.inj h).symm⟩)

/-- Entries that are put in one by one, each joined with what is there by then. -/
def joinEntries (join : Value → Value → Value) (es fs : Entries) : Entries :=
  fs.foldl (fun done entry => insert done entry.1
    (match find? done entry.1 with
      | some lower => join lower entry.2
      | none => entry.2)) es

variable {join : Value → Value → Value}

theorem joinEntries_cons (join : Value → Value → Value) (es : Entries) (f : Value × Value)
    (fs : Entries) : ∃ joined, joinedAt join (find? es f.1) (some f.2) = some joined ∧
      joinEntries join es (f :: fs) = joinEntries join (insert es f.1 joined) fs := by
  refine ⟨_, ?_, rfl⟩
  cases find? es f.1 <;> rfl

theorem isKey_of_insert (hes : ∀ key ∈ es.map Prod.fst, key.IsKey) (hk : k.IsKey) :
    ∀ key ∈ (insert es k v).map Prod.fst, key.IsKey := by
  rw [map_fst_insert]
  intro key hkey
  rcases Value.mem_addMissing hkey with hkey | hkey
  · exact hes key hkey
  · rwa [List.mem_singleton.1 hkey]

/-- The keys of the lower mapping come first, then the new ones. -/
theorem map_fst_joinEntries (join : Value → Value → Value) (es : Entries)
    (hfs : AreKeys (fs.map Prod.fst)) :
    (joinEntries join es fs).map Prod.fst = addMissing (es.map Prod.fst) (fs.map Prod.fst) := by
  induction fs generalizing es with
  | nil => exact (Value.addMissing_nil _).symm
  | cons f fs ih =>
      obtain ⟨-, hother, hrest⟩ := AreKeys.cons_iff.1 hfs
      obtain ⟨joined, -, hjoin⟩ := joinEntries_cons join es f fs
      rw [hjoin, ih _ hrest, map_fst_insert, List.map_cons]
      refine Value.addMissing_addMissing_singleton fun key hkey => ?_
      exact List.rel_of_pairwise_cons hfs.differ hkey

/-- Under each key is what was there, joined with what goes over it. -/
theorem find?_joinEntries (hes : ∀ key ∈ es.map Prod.fst, key.IsKey)
    (hfs : AreKeys (fs.map Prod.fst)) (hk : k.IsKey) :
    find? (joinEntries join es fs) k = joinedAt join (find? es k) (find? fs k) := by
  induction fs generalizing es with
  | nil =>
      have hnone : find? [] k = none := rfl
      rw [hnone, joinedAt_none, joinEntries, List.foldl_nil]
  | cons f fs ih =>
      obtain ⟨hf, hother, hrest⟩ := AreKeys.cons_iff.1 hfs
      obtain ⟨joined, hjoined, hjoin⟩ := joinEntries_cons join es f fs
      rw [hjoin, ih (isKey_of_insert hes hf) hrest, find?_insert hes hf hk, find?_cons]
      cases hsame : f.1.same k with
      | false => simp
      | true =>
          have hnone : find? fs k = none := find?_eq_none_iff.2 fun key hkey =>
            Bool.eq_false_iff.2 fun h => hother key hkey (((hf.same_iff hk).1 hsame).trans
              (((hrest.isKey key hkey).same_iff hk).1 h).symm)
          rw [hnone, if_pos rfl, if_pos rfl, ← find?_congr hes hf hk hsame, hjoined]
          rfl

theorem areKeys_joinEntries (hes : AreKeys (es.map Prod.fst)) (hfs : AreKeys (fs.map Prod.fst)) :
    AreKeys ((joinEntries join es fs).map Prod.fst) := by
  rw [map_fst_joinEntries join es hfs]
  exact hes.addMissing hfs

/-- What holds of the values of both and of their joins holds of all joined values. -/
theorem forall_joinEntries {p : Value → Prop} (hes : AreKeys (es.map Prod.fst))
    (hfs : AreKeys (fs.map Prod.fst)) (hlower : ∀ e ∈ es, p e.2) (hupper : ∀ f ∈ fs, p f.2)
    (hjoin : ∀ e ∈ es, ∀ f ∈ fs, p (join e.2 f.2)) :
    ∀ entry ∈ joinEntries join es fs, p entry.2 := by
  intro entry hentry
  have hkeys : AreKeys ((joinEntries join es fs).map Prod.fst) := areKeys_joinEntries hes hfs
  have hfound := find?_of_mem hkeys hentry
  rw [find?_joinEntries hes.isKey hfs (hkeys.isKey _ (List.mem_map_of_mem hentry))] at hfound
  rcases of_joinedAt hfound with hlow | hup | ⟨lower, upper, hlow, hup, heq⟩
  · obtain ⟨key, he, -⟩ := mem_of_find? hlow
    exact hlower (key, entry.2) he
  · obtain ⟨key, hf, -⟩ := mem_of_find? hup
    exact hupper (key, entry.2) hf
  · obtain ⟨_, he, -⟩ := mem_of_find? hlow
    obtain ⟨_, hf, -⟩ := mem_of_find? hup
    exact heq ▸ hjoin _ he _ hf

/-- Joins that do the same with the values at hand make one mapping. -/
theorem joinEntries_congr {join' : Value → Value → Value} (hes : AreKeys (es.map Prod.fst))
    (hfs : AreKeys (fs.map Prod.fst)) (h : ∀ e ∈ es, ∀ f ∈ fs, join e.2 f.2 = join' e.2 f.2) :
    joinEntries join es fs = joinEntries join' es fs := by
  have hkeys : AreKeys ((joinEntries join es fs).map Prod.fst) := areKeys_joinEntries hes hfs
  refine ext hkeys (by rw [map_fst_joinEntries join es hfs, map_fst_joinEntries join' es hfs])
    fun key hkey => ?_
  rw [find?_joinEntries hes.isKey hfs (hkeys.isKey key hkey),
    find?_joinEntries hes.isKey hfs (hkeys.isKey key hkey)]
  cases hupper : find? fs key with
  | none => rw [joinedAt_none, joinedAt_none]
  | some upper =>
      cases hlower : find? es key with
      | none => rfl
      | some lower =>
          obtain ⟨_, he, -⟩ := mem_of_find? hlower
          obtain ⟨_, hf, -⟩ := mem_of_find? hupper
          exact congrArg some (h _ he _ hf)

theorem joinEntries_self (hes : AreKeys (es.map Prod.fst)) (h : ∀ e ∈ es, join e.2 e.2 = e.2) :
    joinEntries join es es = es := by
  have hkeys : (joinEntries join es es).map Prod.fst = es.map Prod.fst := by
    rw [map_fst_joinEntries join es hes, Value.addMissing_self]
  refine ext (hkeys ▸ hes) hkeys fun key hkey => ?_
  rw [find?_joinEntries hes.isKey hes (hes.isKey key (hkeys ▸ hkey))]
  cases hfound : find? es key with
  | none => rfl
  | some v =>
      obtain ⟨_, hmem, -⟩ := mem_of_find? hfound
      exact congrArg some (h _ hmem)

/-- Joining the same entries once more changes nothing if that holds of the values. -/
theorem joinEntries_joinEntries_self (hes : AreKeys (es.map Prod.fst))
    (hfs : AreKeys (fs.map Prod.fst))
    (hjoin : ∀ e ∈ es, ∀ f ∈ fs, join (join e.2 f.2) f.2 = join e.2 f.2)
    (hupper : ∀ f ∈ fs, join f.2 f.2 = f.2) :
    joinEntries join (joinEntries join es fs) fs = joinEntries join es fs := by
  have hjoined : AreKeys ((joinEntries join es fs).map Prod.fst) := areKeys_joinEntries hes hfs
  have hkeys : (joinEntries join (joinEntries join es fs) fs).map Prod.fst =
      (joinEntries join es fs).map Prod.fst := by
    rw [map_fst_joinEntries join _ hfs, map_fst_joinEntries join es hfs,
      Value.addMissing_addMissing_self]
  refine ext (hkeys ▸ hjoined) hkeys fun key hkey => ?_
  have hkey := hjoined.isKey key (hkeys ▸ hkey)
  rw [find?_joinEntries hjoined.isKey hfs hkey, find?_joinEntries hes.isKey hfs hkey]
  cases hupper' : find? fs key with
  | none => rw [joinedAt_none, joinedAt_none]
  | some upper =>
      obtain ⟨_, hf, -⟩ := mem_of_find? hupper'
      cases hlower : find? es key with
      | none => exact congrArg some (hupper _ hf)
      | some lower =>
          obtain ⟨_, he, -⟩ := mem_of_find? hlower
          exact congrArg some (hjoin _ he _ hf)

/-- Joined mappings can be joined in either order of steps if that holds under each key. -/
theorem joinEntries_assoc {gs : Entries} (hes : AreKeys (es.map Prod.fst))
    (hfs : AreKeys (fs.map Prod.fst)) (hgs : AreKeys (gs.map Prod.fst))
    (h : ∀ key, key.IsKey → ∀ u v w, find? es key = some u → find? fs key = some v →
      find? gs key = some w → join (join u v) w = join u (join v w)) :
    joinEntries join (joinEntries join es fs) gs =
      joinEntries join es (joinEntries join fs gs) := by
  have hleft : AreKeys ((joinEntries join es fs).map Prod.fst) := areKeys_joinEntries hes hfs
  have hright : AreKeys ((joinEntries join fs gs).map Prod.fst) := areKeys_joinEntries hfs hgs
  have hwhole : AreKeys ((joinEntries join (joinEntries join es fs) gs).map Prod.fst) :=
    areKeys_joinEntries hleft hgs
  refine ext hwhole ?_ fun key hkey => ?_
  · rw [map_fst_joinEntries join _ hgs, map_fst_joinEntries join es hfs,
      map_fst_joinEntries join es hright, map_fst_joinEntries join fs hgs]
    refine Value.addMissing_assoc fun x hx y hy z hz hxy hyz => ?_
    have hz := hgs.isKey z hz
    exact (Value.IsKey.same_congr (hes.isKey x hx) (hfs.isKey y hy) hz hyz).symm.trans hxy
  · have hkey := hwhole.isKey key hkey
    rw [find?_joinEntries hleft.isKey hgs hkey, find?_joinEntries hes.isKey hfs hkey,
      find?_joinEntries hes.isKey hright hkey, find?_joinEntries hfs.isKey hgs hkey]
    cases hu : find? es key <;> cases hv : find? fs key <;> cases hw : find? gs key <;>
      first | rfl | exact congrArg some (h key hkey _ _ _ hu hv hw)

end Entries

end Playbook
