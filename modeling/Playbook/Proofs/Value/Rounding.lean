import Mathlib.Algebra.Order.Field.Power
import Mathlib.Tactic.Linarith
import Mathlib.Tactic.NormNum
import Playbook.Proofs.Value.Keys

/-!
# Rounded numbers

What rounding gives is in the usual form. The exponent is chosen so that the
quotient is at least `2 ^ 52` and below `2 ^ 53`, and is raised only to the
least one; a mantissa that is rounded up to `2 ^ 53` moves to the next exponent.
-/

namespace Playbook.Binary64

variable {top bottom bound n d : Nat} {e : Int}

/-! ## Quotients -/

theorem roundQuotient_le (h : top < bound * bottom) : roundQuotient top bottom ≤ bound := by
  have hquotient : top / bottom < bound := Nat.div_lt_of_lt_mul (Nat.mul_comm bound _ ▸ h)
  unfold roundQuotient
  dsimp only
  split_ifs <;> omega

theorem le_roundQuotient (hbottom : 0 < bottom) (h : bound * bottom ≤ top) :
    bound ≤ roundQuotient top bottom := by
  have hquotient : bound ≤ top / bottom := (Nat.le_div_iff_mul_le hbottom).2 h
  unfold roundQuotient
  dsimp only
  split_ifs <;> omega

theorem scaled_pos (hd : 0 < d) : 0 < (scaled n d e).2 := by
  unfold scaled
  split
  · rw [Nat.shiftLeft_eq]
    exact Nat.mul_pos hd (Nat.two_pow_pos _)
  · exact hd

theorem scaled_ratio (n d : Nat) (e : Int) :
    ((scaled n d e).1 : ℚ) / (scaled n d e).2 = n / d / 2 ^ e := by
  unfold scaled
  split
  · obtain ⟨k, rfl⟩ := Int.eq_ofNat_of_zero_le ‹0 ≤ e›
    simp [Nat.shiftLeft_eq, div_div]
  · obtain ⟨k, hk⟩ := Int.eq_ofNat_of_zero_le (a := -e) (by omega)
    obtain rfl : e = -(k : Int) := by omega
    simp [Nat.shiftLeft_eq, div_mul_eq_mul_div]

theorem scaled_lt_iff (hd : 0 < d) :
    (scaled n d e).1 < bound * (scaled n d e).2 ↔ (n : ℚ) / d / 2 ^ e < bound := by
  rw [← scaled_ratio, div_lt_iff₀ (by exact_mod_cast scaled_pos hd)]
  norm_cast

/-! ## The exponent -/

/-- The exponent that is tried first leaves a quotient above `2 ^ 51` and below `2 ^ 53`. -/
theorem guess_bounds (hn : n ≠ 0) (hd : 0 < d)
    (he : e = (Nat.log2 n : Int) - (Nat.log2 d : Int) - 52) :
    (2 : ℚ) ^ (51 : Int) < n / d / 2 ^ e ∧ (n : ℚ) / d / 2 ^ e < 2 ^ (53 : Int) := by
  have hdpos : (0 : ℚ) < d := by exact_mod_cast hd
  have hnlow : (2 : ℚ) ^ (Nat.log2 n : Int) ≤ n := by exact_mod_cast Nat.log2_self_le hn
  have hnhigh : (n : ℚ) < 2 ^ ((Nat.log2 n : Int) + 1) := by exact_mod_cast Nat.lt_log2_self
  have hdlow : (2 : ℚ) ^ (Nat.log2 d : Int) ≤ d := by exact_mod_cast Nat.log2_self_le hd.ne'
  have hdhigh : (d : ℚ) < 2 ^ ((Nat.log2 d : Int) + 1) := by exact_mod_cast Nat.lt_log2_self
  constructor
  · rw [lt_div_iff₀ (by positivity), lt_div_iff₀ hdpos]
    calc (2 : ℚ) ^ (51 : Int) * 2 ^ e * d
        < 2 ^ (51 : Int) * 2 ^ e * 2 ^ ((Nat.log2 d : Int) + 1) := by gcongr
      _ = 2 ^ (Nat.log2 n : Int) := by
          rw [← zpow_add₀ two_ne_zero, ← zpow_add₀ two_ne_zero, he]
          congr 1
          omega
      _ ≤ n := hnlow
  · rw [div_lt_iff₀ (by positivity), div_lt_iff₀ hdpos]
    calc (n : ℚ) < 2 ^ ((Nat.log2 n : Int) + 1) := hnhigh
      _ = 2 ^ (53 : Int) * 2 ^ e * 2 ^ (Nat.log2 d : Int) := by
          rw [← zpow_add₀ two_ne_zero, ← zpow_add₀ two_ne_zero, he]
          congr 1
          omega
      _ ≤ 2 ^ (53 : Int) * 2 ^ e * d := by gcongr

/-- After the correction by one the whole part of the quotient has 53 bits. -/
theorem fitted_bounds (hn : n ≠ 0) (hd : 0 < d) {guess : Int}
    (hguess : guess = (Nat.log2 n : Int) - (Nat.log2 d : Int) - 52)
    (he : e = if (scaled n d guess).1 < (scaled n d guess).2 <<< 52 then guess - 1 else guess) :
    (2 : ℚ) ^ 52 ≤ n / d / 2 ^ e ∧ (n : ℚ) / d / 2 ^ e < 2 ^ 53 := by
  obtain ⟨hlow, hhigh⟩ := guess_bounds hn hd hguess
  have hfull : (scaled n d guess).1 < (scaled n d guess).2 <<< 52 ↔
      (n : ℚ) / d / 2 ^ guess < (2 ^ 52 : Nat) := by
    rw [Nat.shiftLeft_eq, Nat.mul_comm, scaled_lt_iff hd]
  split at he
  · have hless := hfull.1 ‹_›
    have hdouble : (n : ℚ) / d / 2 ^ e = n / d / 2 ^ guess * 2 := by
      rw [he, zpow_sub_one₀ two_ne_zero, ← div_div, div_inv_eq_mul]
    rw [hdouble]
    norm_num at hlow hless ⊢
    constructor <;> linarith
  · have hmore := mt hfull.2 ‹_›
    rw [he]
    norm_num at hhigh hmore ⊢
    exact ⟨hmore, hhigh⟩

/-! ## The mantissa -/

/-- A quotient below `2 ^ 53` gives a number in the usual form, with a carry or without. -/
theorem canonical_rounded (hd : 0 < d) (hleast : leastExponent ≤ e)
    (hhigh : (n : ℚ) / d / 2 ^ e < 2 ^ 53)
    (hlow : (2 : ℚ) ^ 52 ≤ n / d / 2 ^ e ∨ e = leastExponent) {mantissa : Nat}
    (hmantissa : mantissa = roundQuotient (scaled n d e).1 (scaled n d e).2) (negative : Bool) :
    (if mantissa = mantissaBound then finite negative leastFull (e + 1)
      else finite negative mantissa e).Canonical := by
  have hbound : mantissa ≤ 2 ^ 53 :=
    hmantissa ▸ roundQuotient_le ((scaled_lt_iff hd).2 (by exact_mod_cast hhigh))
  have hfull : 2 ^ 52 ≤ mantissa ∨ e = leastExponent := by
    refine hlow.imp_left fun hlow => hmantissa ▸ le_roundQuotient (scaled_pos hd) ?_
    refine Nat.le_of_not_lt fun hless => ?_
    have hbelow := (scaled_lt_iff hd).1 hless
    exact absurd hlow (not_le.2 (by exact_mod_cast hbelow))
  split
  · exact ⟨by norm_num [leastFull], by omega, .inl (by norm_num [leastFull])⟩
  · rename_i hcarry
    rw [mantissaBound] at hcarry
    exact ⟨by omega, hleast, hfull⟩

theorem canonical_zero (negative : Bool) : (zero negative).Canonical :=
  ⟨by norm_num, le_refl _, .inr rfl⟩

/-- A number that is too great becomes an infinity, which has one form. -/
theorem Canonical.orInfinity {negative : Bool} {mantissa : Nat}
    (h : (finite negative mantissa e).Canonical) :
    (if greatestExponent < e then infinity negative else finite negative mantissa e).Canonical := by
  split
  · trivial
  · exact h

/-- Rounding a fraction gives a number in the usual form. -/
theorem canonical_ofRatio (negative : Bool) (n : Nat) (hd : 0 < d) :
    (ofRatio negative n d).Canonical := by
  unfold ofRatio
  split
  · exact canonical_zero negative
  rename_i hn
  dsimp only
  generalize hguess : (Nat.log2 n : Int) - (Nat.log2 d : Int) - 52 = guess
  generalize hfitted :
    (if (scaled n d guess).1 < (scaled n d guess).2 <<< 52 then guess - 1 else guess) = fitted
  obtain ⟨hlow, hhigh⟩ := fitted_bounds hn hd hguess.symm hfitted.symm
  have hle : fitted ≤ max fitted leastExponent := le_max_left _ _
  have hleast : leastExponent ≤ max fitted leastExponent := le_max_right _ _
  have hchoice := max_choice fitted leastExponent
  generalize max fitted leastExponent = e at hle hleast hchoice ⊢
  have hpower : (2 : ℚ) ^ fitted ≤ 2 ^ e := zpow_le_zpow_right₀ one_le_two hle
  have hlower : (n : ℚ) / d / 2 ^ e ≤ n / d / 2 ^ fitted :=
    div_le_div_of_nonneg_left (div_nonneg n.cast_nonneg d.cast_nonneg) (zpow_pos two_pos _) hpower
  have hsmall : (2 : ℚ) ^ 52 ≤ n / d / 2 ^ e ∨ e = leastExponent := by
    refine hchoice.imp_left ?_
    rintro rfl
    exact hlow
  generalize hmantissa : roundQuotient (scaled n d e).1 (scaled n d e).2 = mantissa
  have hrounded := canonical_rounded hd hleast (hlower.trans_lt hhigh) hsmall hmantissa.symm
    negative
  by_cases hcarry : mantissa = mantissaBound
  · rw [if_pos hcarry] at hrounded ⊢
    exact hrounded.orInfinity
  · rw [if_neg hcarry] at hrounded ⊢
    exact hrounded.orInfinity

/-! ## Operations -/

variable {x y : Binary64}

theorem tenTo_pos (k : Nat) : 0 < tenTo k := Nat.pow_pos (by norm_num)

theorem canonical_ofDecimal (negative : Bool) (digits : Nat) (exponent : Int) :
    (ofDecimal negative digits exponent).Canonical := by
  unfold ofDecimal
  dsimp only
  split_ifs
  · exact canonical_zero negative
  · trivial
  · exact canonical_zero negative
  · exact canonical_ofRatio _ _ one_pos
  · exact canonical_ofRatio _ _ (tenTo_pos _)

theorem Canonical.negate (h : x.Canonical) : x.negate.Canonical := by
  cases x <;> exact h

theorem pos_of_ratio? {a : Int} {b : Nat} (h : x.ratio? = some (a, b)) : 0 < b := by
  cases x with
  | finite negative mantissa exponent =>
      cases h
      rw [Nat.one_shiftLeft]
      exact Nat.two_pow_pos _
  | _ => cases h

theorem canonical_add (mark : String) (x y : Binary64) : (add mark x y).Canonical := by
  unfold add
  split
  · split <;> trivial
  · trivial
  · trivial
  · split
    · rename_i hx hy
      dsimp only
      split
      · exact canonical_zero _
      · exact canonical_ofRatio _ _ (Nat.mul_pos (pos_of_ratio? hx) (pos_of_ratio? hy))
    · trivial

end Playbook.Binary64
