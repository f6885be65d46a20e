import Mathlib.Tactic.Ring
import Playbook.Proofs.Value

/-!
# Equality of keys

Values that can be keys are the same as keys if and only if they have the same
key, so that sameness of keys is an equivalence. Numbers of different types
share a key where they are equal.
-/

namespace Playbook

/-- What a value is compared by when it is a key. -/
inductive Key where
  | null
  | number (n : Int)
  | float (x : Binary64)
  | text (s : String)
  | bytes (data : List UInt8)
  | day (d : Day)
  | instant (zoned : Bool) (number : Int)
  | tuple (keys : List Key)
  | none

namespace Binary64

/-- The mantissa has 53 bits, fewer only with the least exponent. -/
def Canonical : Binary64 → Prop
  | .finite _ mantissa exponent =>
      mantissa < 2 ^ 53 ∧ leastExponent ≤ exponent ∧
        (2 ^ 52 ≤ mantissa ∨ exponent = leastExponent)
  | _ => True

/-- Of two equal numbers the one with the full mantissa has the lower exponent. -/
theorem exponent_le {m n a b : Nat} (hm : m < 2 ^ 53) (hn : 2 ^ 52 ≤ n ∨ b = 0)
    (h : m * 2 ^ a = n * 2 ^ b) : b ≤ a := by
  by_contra hlt
  obtain ⟨d, rfl⟩ := Nat.exists_eq_add_of_lt (Nat.lt_of_not_le hlt)
  have hfull : 2 ^ 52 ≤ n := hn.resolve_right (by omega)
  have hscaled : m = n * 2 ^ (d + 1) := by
    refine Nat.eq_of_mul_eq_mul_right (Nat.two_pow_pos a) ?_
    rw [h, Nat.mul_assoc, ← Nat.pow_add]
    congr 2
    omega
  have hlarge : 2 ^ 53 ≤ m := by
    calc 2 ^ 53 = 2 ^ 52 * 2 ^ 1 := by norm_num
      _ ≤ n * 2 ^ (d + 1) := Nat.mul_le_mul hfull (Nat.pow_le_pow_right (by omega) (by omega))
      _ = m := hscaled.symm
  omega

theorem eq_mul_of_toInt? {x : Binary64} {top n : Int} {bottom : Nat}
    (hratio : x.ratio? = some (top, bottom)) (h : x.toInt? = some n) : top = n * bottom := by
  rw [toInt?, hratio] at h
  dsimp only at h
  split at h
  · rename_i hdvd
    rw [← Option.some.inj h, Int.ediv_mul_cancel (Int.dvd_of_emod_eq_zero hdvd)]
  · cases h

/-- The size of a number that is whole, over the least exponent. -/
theorem natAbs_of_toInt? {negative : Bool} {m : Nat} {e n : Int} (he : leastExponent ≤ e)
    (h : (finite negative m e).toInt? = some n) :
    n.natAbs * 2 ^ leastExponent.natAbs = m * 2 ^ (e - leastExponent).toNat := by
  have hsize : n.natAbs * 2 ^ (-e).toNat = m * 2 ^ e.toNat := by
    have htop := congrArg Int.natAbs (eq_mul_of_toInt? rfl h)
    rw [Int.natAbs_mul, Int.natAbs_natCast, Nat.one_shiftLeft] at htop
    rw [← htop, ← Nat.shiftLeft_eq]
    cases negative with
    | false => exact Int.natAbs_natCast _
    | true => exact (Int.natAbs_neg _).trans (Int.natAbs_natCast _)
  have hexponents : e.toNat + leastExponent.natAbs =
      (e - leastExponent).toNat + (-e).toNat := by
    simp only [leastExponent] at he ⊢
    omega
  refine Nat.eq_of_mul_eq_mul_right (Nat.two_pow_pos (-e).toNat) ?_
  calc n.natAbs * 2 ^ leastExponent.natAbs * 2 ^ (-e).toNat
      = n.natAbs * 2 ^ (-e).toNat * 2 ^ leastExponent.natAbs := by ring
    _ = m * (2 ^ e.toNat * 2 ^ leastExponent.natAbs) := by rw [hsize, Nat.mul_assoc]
    _ = m * 2 ^ (e - leastExponent).toNat * 2 ^ (-e).toNat := by
      rw [← Nat.pow_add, hexponents, Nat.pow_add, Nat.mul_assoc]

/-- Whole numbers are the same where they are equal. -/
theorem same_of_toInt? {x y : Binary64} {n : Int} (hx : x.Canonical) (hy : y.Canonical)
    (hxn : x.toInt? = some n) (hyn : y.toInt? = some n) : x.same y = true := by
  cases x with
  | nan | infinity => cases hxn
  | finite negative m e =>
      cases y with
      | nan | infinity => cases hyn
      | finite other m' e' =>
          have hm := natAbs_of_toInt? hx.2.1 hxn
          have hm' := natAbs_of_toInt? hy.2.1 hyn
          have hle := exponent_le hx.1 (hy.2.2.imp_right fun h => by simp [h]) (hm.symm.trans hm')
          have hge := exponent_le hy.1 (hx.2.2.imp_right fun h => by simp [h]) (hm'.symm.trans hm)
          obtain rfl : e = e' := by
            have := hx.2.1
            have := hy.2.1
            omega
          obtain rfl : m = m' :=
            Nat.eq_of_mul_eq_mul_right (Nat.two_pow_pos _) (hm.symm.trans hm')
          by_cases hzero : m = 0
          · simp [same, isZero, hzero]
          have hpos : 0 < m <<< e.toNat := by
            rw [Nat.shiftLeft_eq]
            exact Nat.mul_pos (Nat.pos_of_ne_zero hzero) (Nat.two_pow_pos _)
          have htop := (eq_mul_of_toInt? rfl hxn).trans (eq_mul_of_toInt? rfl hyn).symm
          generalize m <<< e.toNat = size at hpos htop
          obtain rfl : negative = other := by
            cases negative <;> cases other <;> simp at htop ⊢ <;> omega
          simp [same]

theorem toInt?_of_isZero {x : Binary64} (h : x.isZero = true) : x.toInt? = some 0 := by
  cases x with
  | nan | infinity => cases h
  | finite negative m e =>
      obtain rfl : m = 0 := by simpa [isZero] using h
      simp [toInt?, ratio?]

/-- A number is compared as a whole number if it is one, else by itself. -/
def key (x : Binary64) : Key :=
  match x.toInt? with
  | some n => .number n
  | none => .float x

theorem key_of_toInt? {x : Binary64} {n : Int} (h : x.toInt? = some n) : x.key = .number n := by
  rw [key, h]

theorem key_of_toInt?_none {x : Binary64} (h : x.toInt? = none) : x.key = .float x := by
  rw [key, h]

theorem key_eq_number_iff {x : Binary64} {n : Int} : x.key = .number n ↔ x.toInt? = some n := by
  cases h : x.toInt? with
  | none => simp [key_of_toInt?_none h]
  | some k => simp [key_of_toInt? h]

theorem key_ne {x : Binary64} {k : Key} (hnumber : ∀ n, k ≠ .number n)
    (hfloat : ∀ y, k ≠ .float y) : x.key ≠ k := by
  cases h : x.toInt? with
  | none => exact key_of_toInt?_none h ▸ (hfloat x).symm
  | some n => exact key_of_toInt? h ▸ (hnumber n).symm

theorem ne_key {x : Binary64} {k : Key} (hnumber : ∀ n, k ≠ .number n)
    (hfloat : ∀ y, k ≠ .float y) : k ≠ x.key :=
  (key_ne hnumber hfloat).symm

theorem same_iff_key {x y : Binary64} (hx : x.Canonical) (hy : y.Canonical) :
    x.same y = true ↔ x.key = y.key := by
  constructor
  · intro h
    rw [same, Bool.or_eq_true, beq_iff_eq, Bool.and_eq_true] at h
    rcases h with rfl | ⟨hxzero, hyzero⟩
    · rfl
    · rw [key_of_toInt? (toInt?_of_isZero hxzero), key_of_toInt? (toInt?_of_isZero hyzero)]
  · intro h
    cases hxn : x.toInt? with
    | some n =>
        rw [key_of_toInt? hxn] at h
        exact same_of_toInt? hx hy hxn (key_eq_number_iff.1 h.symm)
    | none =>
        cases hyn : y.toInt? with
        | some n =>
            rw [key_of_toInt? hyn, key_eq_number_iff, hxn] at h
            cases h
        | none =>
            rw [key_of_toInt?_none hxn, key_of_toInt?_none hyn] at h
            simp [same, Key.float.inj h]

theorem sameInt_iff_key {x : Binary64} {n : Int} : x.sameInt n = true ↔ x.key = .number n := by
  rw [sameInt, beq_iff_eq, key_eq_number_iff]

theorem number_eq_key {x : Binary64} {n : Int} : .number n = x.key ↔ x.sameInt n = true :=
  eq_comm.trans sameInt_iff_key.symm

end Binary64

/-! ## Keys of values -/

namespace Value

mutual

def key : Value → Key
  | .null => .null
  | .bool b => .number (if b then 1 else 0)
  | .int n => .number n
  | .float x => x.key
  | .text s => .text s
  | .bytes data => .bytes data
  | .day d => .day d
  | .instant t => .instant t.offset.isSome t.number
  | .tuple items => .tuple (keys items)
  | .list _ | .set _ | .mapping _ | .cycle .. | .again _ => .none

def keys : List Value → List Key
  | [] => []
  | item :: items => key item :: keys items

/-- Numbers inside of a key are in their usual form. -/
def Canonical : Value → Prop
  | .float x => x.Canonical
  | .tuple items => AllCanonical items
  | _ => True

def AllCanonical : List Value → Prop
  | [] => True
  | item :: items => Canonical item ∧ AllCanonical items

end

mutual

theorem same_iff_key : ∀ v w : Value, v.canBeKey = true → w.canBeKey = true →
    v.Canonical → w.Canonical → (v.same w = true ↔ v.key = w.key)
  | .tuple items, w, hv, hw, hitems, hothers => by
      cases w with
      | tuple others =>
          rw [same, key, key, Key.tuple.injEq]
          exact sameItems_iff_keys items others hv hw hitems hothers
      | _ => simp_all [same, samePlain, sameNumber?, key, canBeKey, Binary64.ne_key]
  | .float x, w, _, hw, hx, hw' => by
      cases w with
      | float y => simpa [same, samePlain, sameNumber?, key] using Binary64.same_iff_key hx hw'
      | _ =>
        simp_all [same, samePlain, sameNumber?, key, canBeKey, Binary64.key_ne,
          Binary64.sameInt_iff_key]
  | .bool a, w, _, hw, _, _ => by
      cases w with
      | bool b => cases a <;> cases b <;> simp [same, samePlain, sameNumber?, key]
      | int n => simpa [same, samePlain, sameNumber?, key] using eq_comm
      | _ =>
        simp_all [same, samePlain, sameNumber?, key, canBeKey, Binary64.number_eq_key]
  | .int n, w, _, hw, _, _ => by
      cases w <;> simp_all [same, samePlain, sameNumber?, key, canBeKey, Binary64.number_eq_key]
  | .null, w, _, hw, _, _ | .text a, w, _, hw, _, _ | .bytes a, w, _, hw, _, _
  | .day a, w, _, hw, _, _ | .instant a, w, _, hw, _, _ => by
      cases w <;>
        simp_all [same, samePlain, sameNumber?, key, canBeKey, Instant.same, Binary64.ne_key]

theorem sameItems_iff_keys : ∀ items others : List Value, canBeKeys items = true →
    canBeKeys others = true → AllCanonical items → AllCanonical others →
    (sameItems items others = true ↔ keys items = keys others)
  | [], [], _, _, _, _ => by simp [sameItems, keys]
  | [], _ :: _, _, _, _, _ => by simp [sameItems, keys]
  | _ :: _, [], _, _, _, _ => by simp [sameItems, keys]
  | item :: items, other :: others, hv, hw, hpv, hpw => by
      rw [canBeKeys, Bool.and_eq_true] at hv hw
      rw [sameItems, keys, keys, Bool.and_eq_true, List.cons.injEq,
        same_iff_key item other hv.1 hw.1 hpv.1 hpw.1,
        sameItems_iff_keys items others hv.2 hw.2 hpv.2 hpw.2]

end

/-- A value that can be a key, with its numbers in their usual form. -/
structure IsKey (v : Value) : Prop where
  canBeKey : v.canBeKey = true
  canonical : v.Canonical

variable {u v w : Value}

theorem IsKey.same_iff (hv : v.IsKey) (hw : w.IsKey) : v.same w = true ↔ v.key = w.key :=
  same_iff_key v w hv.canBeKey hw.canBeKey hv.canonical hw.canonical

/-- Keys that are the same are the same as the same keys. -/
theorem IsKey.same_congr (hu : u.IsKey) (hv : v.IsKey) (hw : w.IsKey) (h : v.same w = true) :
    u.same v = u.same w := by
  rw [Bool.eq_iff_iff, hu.same_iff hv, hu.same_iff hw, (hv.same_iff hw).1 h]

/-! ## The first of each key -/

/-- One more id, unless it is the same as one before. -/
def addNew (found : List Value) (id : Value) : List Value :=
  if found.any (·.same id) then found else found ++ [id]

/-- The different ones among some ids, in order of first occurrence. -/
def firsts (ids : List Value) : List Value := ids.foldl addNew []

theorem firsts_snoc (ids : List Value) (id : Value) :
    firsts (ids ++ [id]) = addNew (firsts ids) id := by
  rw [firsts, List.foldl_append]
  rfl

theorem pairwise_addNew {found : List Value} (id : Value)
    (h : found.Pairwise fun v w => v.same w = false) :
    (addNew found id).Pairwise fun v w => v.same w = false := by
  unfold addNew
  split
  · exact h
  · rename_i hnew
    rw [List.any_eq_true] at hnew
    push Not at hnew
    refine List.pairwise_append.2 ⟨h, List.pairwise_singleton _ _, fun v hv w hw => ?_⟩
    obtain rfl := List.mem_singleton.1 hw
    exact Bool.eq_false_iff.2 (hnew v hv)

theorem pairwise_firsts (ids : List Value) :
    (firsts ids).Pairwise fun v w => v.same w = false :=
  List.foldlRecOn ids addNew .nil fun _ h id _ => pairwise_addNew id h

end Value

end Playbook
