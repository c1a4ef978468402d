import ScientificCalculator.FixedPoint.Pi
import ScientificCalculator.Proofs.FixedPoint.OddSeries

/-!
The fixed-point ratio of the circle is accurate to little more than one unit, at any number of
digits that an angle can need, and to less than two units up to a hundred million digits. Each of
its two arctangents is a series whose powers are exact, so the error counts its terms, and ten guard
digits take it away.
-/

namespace ScientificCalculator.FixedPoint

open Real

section Series
variable {square scale power : ℕ}

theorem abs_natDiv_sub_le (a n : ℕ) : |((a / n : ℕ) : ℝ) - a / n| ≤ 1 := by
  rcases Nat.eq_zero_or_pos n with rfl | pos
  · simp
  · have truncated := abs_tdiv_sub_lt a pos
    rw [← Int.ofNat_tdiv, Int.cast_natCast, Int.cast_natCast] at truncated
    exact truncated.le

/-- The sum goes on from any power, also where it ends. -/
theorem inverseArctangentFrom_eq (positive : 0 < square) (powered : 0 < power) (k : ℕ) :
    inverseArctangentFrom square scale power k =
      (scale / (power * (2 * k + 1)) : ℕ) -
        inverseArctangentFrom square scale (power * square) (k + 1) := by
  have denominator : power * (2 * k + 1) ≤ power * square * (2 * (k + 1) + 1) :=
    Nat.mul_le_mul (Nat.le_mul_of_pos_right _ positive) (by omega)
  rw [inverseArctangentFrom]
  by_cases last : scale / (power * (2 * k + 1)) = 0
  · have below : scale < power * (2 * k + 1) :=
      (Nat.div_eq_zero_iff_lt (Nat.mul_pos powered (Nat.succ_pos _))).1 last
    have ends : scale / (power * square * (2 * (k + 1) + 1)) = 0 :=
      Nat.div_eq_of_lt (below.trans_le denominator)
    rw [inverseArctangentFrom, if_pos last, if_pos ends, last]
    rfl
  · rw [if_neg last]

/-- How far a sum of truncated terms is from the exact one. -/
noncomputable def arctangentError (square scale power k : ℕ) : ℝ :=
  inverseArctangentFrom square scale power k - scale / power * oddSeries (-(1 / square)) k

theorem arctangentError_eq (inside : |(-(1 / square) : ℝ)| < 1) (positive : 0 < square)
    (powered : 0 < power) (k : ℕ) :
    arctangentError square scale power k =
      ((scale / (power * (2 * k + 1)) : ℕ) - (scale : ℝ) / (power * (2 * k + 1) : ℕ)) -
        arctangentError square scale (power * square) (k + 1) := by
  have square_pos : (0 : ℝ) < square := by exact_mod_cast positive
  have power_pos : (0 : ℝ) < power := by exact_mod_cast powered
  rw [arctangentError, arctangentError, inverseArctangentFrom_eq positive powered,
    oddSeries_eq inside k, Int.cast_sub, Int.cast_natCast]
  generalize scale / (power * (2 * k + 1)) = term
  push_cast
  field_simp
  ring

theorem abs_arctangentError_le (large : 10 ≤ square) (powered : 0 < power) {digits k : ℕ}
    (size : scale < power * 10 ^ digits) :
    |arctangentError square scale power k| ≤ digits + 2 := by
  have small : |(-(1 / square) : ℝ)| ≤ 1 / 2 := by
    have two : (2 : ℝ) ≤ square := by exact_mod_cast (by omega : 2 ≤ square)
    rw [abs_neg, abs_of_pos (by positivity)]
    exact one_div_le_one_div_of_le two_pos two
  induction digits generalizing power k with
  | zero =>
    have power_pos : (0 : ℝ) < power := by exact_mod_cast powered
    have below : scale < power := by rwa [pow_zero, mul_one] at size
    have none : scale / (power * (2 * k + 1)) = 0 :=
      Nat.div_eq_of_lt (below.trans_le (Nat.le_mul_of_pos_right _ (Nat.succ_pos _)))
    have first : (scale : ℝ) / power ≤ 1 := by
      rw [div_le_one power_pos]
      exact_mod_cast below.le
    have series : |oddSeries (-(1 / square)) k| ≤ 2 := by
      refine (abs_oddSeries_le small k).trans (div_le_self two_pos.le ?_)
      linarith [k.cast_nonneg (α := ℝ)]
    rw [arctangentError, inverseArctangentFrom, if_pos none, Int.cast_zero, zero_sub, abs_neg,
      abs_mul, abs_of_nonneg (div_nonneg (Nat.cast_nonneg _) power_pos.le)]
    calc scale / power * |oddSeries (-(1 / square)) k|
        ≤ 1 * 2 := mul_le_mul first series (abs_nonneg _) zero_le_one
      _ = (0 : ℕ) + 2 := by norm_num
  | succ digits ih =>
    have next : scale < power * square * 10 ^ digits := by
      refine size.trans_le ?_
      rw [pow_succ', ← mul_assoc]
      exact Nat.mul_le_mul_right _ (Nat.mul_le_mul_left _ large)
    have later := ih (Nat.mul_pos powered (by omega)) (k := k + 1) next
    rw [arctangentError_eq (by linarith) (by omega) powered]
    refine (abs_sub _ _).trans ((add_le_add (abs_natDiv_sub_le _ _) later).trans (le_of_eq ?_))
    push_cast
    ring

end Series

theorem abs_inverseArctangent_sub_le {q : ℕ} (large : 4 ≤ q) (digits : ℕ) :
    |(inverseArctangent q (tenTo digits) : ℝ) - 10 ^ digits * arctan (q : ℝ)⁻¹| ≤ digits + 2 := by
  have inside : |((q : ℝ)⁻¹)| < 1 := by
    have four : (4 : ℝ) ≤ q := by exact_mod_cast large
    rw [abs_of_pos (by positivity)]
    exact inv_lt_one_of_one_lt₀ (by linarith)
  have square : 10 ≤ q * q := le_trans (by norm_num) (Nat.mul_le_mul large large)
  have size : tenTo digits < q * 10 ^ digits :=
    lt_mul_of_one_lt_left (tenTo_pos digits) (by omega)
  have series : (10 : ℝ) ^ digits / q * oddSeries (-(1 / (q * q : ℕ))) 0 =
      10 ^ digits * arctan (q : ℝ)⁻¹ := by
    rw [arctan_eq_oddSeries inside, inv_pow, one_div, Nat.cast_mul, sq]
    ring
  have error := abs_arctangentError_le (k := 0) square (by omega) size
  rwa [arctangentError, realCast_tenTo, series] at error

theorem abs_machin_sub_le (digits : ℕ) :
    |((16 * inverseArctangent 5 (tenTo digits) -
        4 * inverseArctangent 239 (tenTo digits) : ℤ) : ℝ) - 10 ^ digits * π| ≤
      20 * (digits + 2) := by
  have fifth := abs_inverseArctangent_sub_le (by norm_num : 4 ≤ 5) digits
  have small := abs_inverseArctangent_sub_le (by norm_num : 4 ≤ 239) digits
  have machin := four_mul_arctan_inv_5_sub_arctan_inv_239
  generalize inverseArctangent 5 (tenTo digits) = a at fifth ⊢
  generalize inverseArctangent 239 (tenTo digits) = b at small ⊢
  have apart : ((16 * a - 4 * b : ℤ) : ℝ) - 10 ^ digits * π =
      16 * (a - 10 ^ digits * arctan (5 : ℕ)⁻¹) - 4 * (b - 10 ^ digits * arctan (239 : ℕ)⁻¹) := by
    push_cast
    linear_combination 4 * 10 ^ digits * machin
  rw [apart]
  refine (abs_sub _ _).trans ?_
  rw [abs_mul, abs_mul, abs_of_pos (by norm_num : (0 : ℝ) < 16),
    abs_of_pos (by norm_num : (0 : ℝ) < 4)]
  linarith

/-- The ratio of the circle is accurate to one unit but for what the guard digits leave. -/
theorem abs_pi_sub_lt (digits : ℕ) :
    |(pi digits : ℝ) - 10 ^ digits * π| < 1 + 20 * (digits + 12) / 10 ^ 10 := by
  have error := abs_tdiv_tenTo_sub_lt piGuard (abs_machin_sub_le (digits + piGuard))
  have guard : ((digits + piGuard : ℕ) : ℝ) + 2 = digits + 12 := by
    rw [piGuard]
    push_cast
    ring
  rwa [guard] at error

/-- What the terms of a hundred million digits lose is still less than the guard digits hold. -/
theorem pi_accurate {digits : ℕ} (few : digits ≤ 10 ^ 8) :
    |(pi digits : ℝ) - 10 ^ digits * π| < 2 := by
  have few' : (digits : ℝ) ≤ 10 ^ 8 := by exact_mod_cast few
  have left : 20 * ((digits : ℝ) + 12) / 10 ^ 10 < 1 := by
    rw [div_lt_one (by norm_num)]
    linarith
  exact (abs_pi_sub_lt digits).trans (by linarith)

theorem pi_accurate_greatest :
    100000000 ≤ 10 ^ 8 ∧ |(pi 100000000 : ℝ) - 10 ^ 100000000 * π| < 2 :=
  ⟨by decide, pi_accurate (by decide)⟩

end ScientificCalculator.FixedPoint
