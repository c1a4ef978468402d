import ScientificCalculator.Proofs.Function.Logarithm

/-!
Exponential and logarithm undo each other. An error in proportion to a number is an error of the
same size in its logarithm, however large the number is. An error of an argument is one in
proportion to its exponential, so that of a logarithm, which grows with the order of the number,
bounds the way back.
-/

namespace ScientificCalculator.Decimal

open FixedPoint

variable {x : Decimal}

/-- Numbers that are close in proportion have logarithms that are close. -/
theorem abs_log_sub_le_of_within {a b ε : ℝ} (close : Within ε a b) (pos : 0 < b)
    (small : ε ≤ 1 / 2) : 0 < a ∧ |Real.log a - Real.log b| ≤ 2 * ε := by
  rw [Within, abs_of_pos pos] at close
  have half : b / 2 ≤ a := by
    have lost := mul_le_mul_of_nonneg_right small pos.le
    linarith [neg_le_of_abs_le close]
  refine ⟨(half_pos pos).trans_le half, ?_⟩
  have logs := abs_log_sub_log_le (half_pos pos) half (half_le_self pos.le)
  refine logs.trans ?_
  rw [div_le_iff₀ (half_pos pos)]
  linarith

/-- An argument that is not too large has a positive exponential, accurate in proportion. -/
theorem exp_returns_within (held : x.Held) (small : |x.toRat| ≤ 2 * 10 ^ 15) :
    ∃ r : Decimal, x.exp = .ok r ∧ r.Held ∧ Within (1 / 10 ^ 58) r.toRat (Real.exp x.toRat) := by
  by_cases zero : x.mantissa = 0
  · refine ⟨one, if_pos zero, ⟨canonical_one, by decide, by decide⟩, ?_⟩
    rw [toRat_eq_zero_iff.2 zero, toRat_one, Within]
    norm_num
  · obtain ⟨order, few, found⟩ := exp_of_abs_le held zero small
    have scaled := abs_toScaled_sub_real_le held (by decide) (exponent_within held order)
    exact ⟨_, found, held_ofParts _ _, within_ofWorkingArgument scaled few⟩

theorem ln_returns_near (held : x.Held) (pos : 0 < x.mantissa) (orders : x.order.natAbs ≤ maxOrder) :
    ∃ r : Decimal, x.ln = .ok r ∧ r.Held ∧
      |(r.toRat : ℝ) - Real.log x.toRat| ≤ 6 / 10 ^ 60 * |Real.log x.toRat| + 2 / 10 ^ 71 :=
  ⟨_, if_pos pos, held_ofParts _ _, abs_rounded_scaledLogarithm_sub_le held pos orders⟩

/-- The logarithm tells the first place but for a part of `ln 10`. -/
theorem firstPlace_bounds_log (pos : 0 < x.mantissa) :
    x.firstPlace * Real.log 10 ≤ Real.log x.toRat ∧
      Real.log x.toRat ≤ (x.firstPlace + 1) * Real.log 10 := by
  have value := toRat_pos_iff.2 pos
  have low := (Rat.cast_le (K := ℝ)).2 (ten_zpow_firstPlace_le pos.ne')
  have high := (Rat.cast_le (K := ℝ)).2 (lt_ten_zpow_firstPlace x).le
  rw [abs_of_pos value] at low high
  push_cast at low high
  have value' : (0 : ℝ) < x.toRat := by exact_mod_cast value
  have least := Real.log_le_log (by positivity) low
  have most := Real.log_le_log value' high
  rw [Real.log_zpow] at least most
  push_cast at most
  exact ⟨least, most⟩

/-- A number whose logarithm is not too large has an order within its range. -/
theorem natAbs_order_le (held : x.Held) (pos : 0 < x.mantissa)
    (small : |Real.log x.toRat| ≤ 2 * 10 ^ 15 - 2) : x.order.natAbs ≤ maxOrder := by
  obtain ⟨low, high⟩ := firstPlace_bounds_log pos
  obtain ⟨under, upper⟩ := abs_le.1 small
  have ten := lt_log_ten
  have most : x.firstPlace ≤ 10 ^ 15 := by
    by_contra! above
    have above' : (10 ^ 15 : ℝ) < x.firstPlace := by exact_mod_cast above
    linarith [mul_le_mul above'.le ten.le (by norm_num) (by linarith : (0 : ℝ) ≤ x.firstPlace)]
  have least : -10 ^ 15 ≤ x.firstPlace := by
    by_contra! below
    have below' : (x.firstPlace + 1 : ℝ) ≤ -10 ^ 15 := by exact_mod_cast below
    linarith [mul_le_mul_of_nonpos_left ten.le (by linarith : (x.firstPlace + 1 : ℝ) ≤ 0)]
  have order : x.order = x.firstPlace := by
    rw [order_eq pos.ne', leadingOrder_eq held (most.trans (by decide))]
  rw [order, maxOrder]
  omega

theorem ln_exp_near (held : x.Held) (small : |x.toRat| ≤ 10 ^ 15) :
    ∃ r : Decimal, x.exp >>= ln = .ok r ∧
      |(r.toRat : ℝ) - x.toRat| ≤ 1 / 10 ^ 57 * max 1 |(x.toRat : ℝ)| := by
  obtain ⟨y, exponential, held', close⟩ := exp_returns_within held (small.trans (by norm_num))
  obtain ⟨pos, logs⟩ := abs_log_sub_le_of_within close (Real.exp_pos _) (by norm_num)
  rw [Real.log_exp] at logs
  have size : |Real.log y.toRat| ≤ |(x.toRat : ℝ)| + 2 * (1 / 10 ^ 58) := by
    linarith [abs_sub_abs_le_abs_sub (Real.log y.toRat) x.toRat]
  have small' : |(x.toRat : ℝ)| ≤ 10 ^ 15 := by exact_mod_cast small
  have pos' : 0 < y.mantissa := toRat_pos_iff.1 (by exact_mod_cast pos)
  have orders : y.order.natAbs ≤ maxOrder := natAbs_order_le held' pos' (by linarith)
  obtain ⟨r, logarithm, -, near⟩ := ln_returns_near held' pos' orders
  refine ⟨r, by rw [exponential]; exact logarithm, ?_⟩
  have unit := le_max_left 1 |(x.toRat : ℝ)|
  have self := le_max_right 1 |(x.toRat : ℝ)|
  calc |(r.toRat : ℝ) - x.toRat|
      ≤ |(r.toRat : ℝ) - Real.log y.toRat| + |Real.log y.toRat - x.toRat| := abs_sub_le _ _ _
    _ ≤ 6 / 10 ^ 60 * |Real.log y.toRat| + 2 / 10 ^ 71 + 2 * (1 / 10 ^ 58) := add_le_add near logs
    _ ≤ 1 / 10 ^ 57 * max 1 |(x.toRat : ℝ)| := by linarith

theorem exp_ln_near (held : x.Held) (pos : x.IsPositive) (orders : x.order.natAbs ≤ 10 ^ 14) :
    ∃ r : Decimal, x.ln >>= exp = .ok r ∧
      |(r.toRat : ℝ) - x.toRat| ≤ 1 / 10 ^ 57 * (|(x.order : ℝ)| + 1) * x.toRat := by
  have range : x.order.natAbs ≤ maxOrder := orders.trans (by decide)
  have pos' : (0 : ℝ) < x.toRat := by exact_mod_cast toRat_pos_iff.2 pos
  have natural := abs_nonneg (x.order : ℝ)
  have order : |(x.order : ℝ)| ≤ 10 ^ 14 := by exact_mod_cast abs_order_cast_le orders
  obtain ⟨y, logarithm, held', near⟩ := ln_returns_near held pos range
  have size := abs_log_toRat_le held pos (by omega)
  have argument : |(y.toRat : ℝ) - Real.log x.toRat| ≤ 1.7 / 10 ^ 59 * (|(x.order : ℝ)| + 1) := by
    linarith
  have small : |(y.toRat : ℝ)| ≤ 2 * 10 ^ 15 := by
    linarith [abs_sub_abs_le_abs_sub (y.toRat : ℝ) (Real.log x.toRat)]
  obtain ⟨r, exponential, -, close⟩ := exp_returns_within held' (by exact_mod_cast small)
  refine ⟨r, by rw [logarithm]; exact exponential, ?_⟩
  have moved := within_exp argument (by linarith)
  rw [Real.exp_log pos'] at moved
  have total := close.trans moved (by norm_num)
  rw [Within, abs_of_pos pos'] at total
  refine total.trans (mul_le_mul_of_nonneg_right ?_ pos'.le)
  linarith

/-- The logarithm of the exponential, and the exponential of the logarithm, are the number they were
taken of, but for a few units of the last digits that are kept. -/
theorem exp_ln_inverse (held : x.Held) :
    (|x.toRat| ≤ 10 ^ 15 → ∃ r : Decimal, x.exp >>= ln = .ok r ∧
      |r.toRat - x.toRat| ≤ 1 / 10 ^ 57 * max 1 |x.toRat|) ∧
    (x.IsPositive → x.order.natAbs ≤ 10 ^ 14 → ∃ r : Decimal, x.ln >>= exp = .ok r ∧
      |r.toRat - x.toRat| ≤ 1 / 10 ^ 57 * (|(x.order : ℚ)| + 1) * x.toRat) := by
  constructor
  · intro small
    obtain ⟨r, found, near⟩ := ln_exp_near held small
    refine ⟨r, found, (Rat.cast_le (K := ℝ)).1 ?_⟩
    push_cast
    exact near
  · intro pos orders
    obtain ⟨r, found, near⟩ := exp_ln_near held pos orders
    refine ⟨r, found, (Rat.cast_le (K := ℝ)).1 ?_⟩
    push_cast
    exact near

/-- The greatest argument, and a number whose logarithm is less than the least. -/
theorem exp_ln_inverse_far :
    (∃ r : Decimal, exp ⟨1, 15⟩ >>= ln = .ok r ∧
      |r.toRat - (⟨1, 15⟩ : Decimal).toRat| ≤
        1 / 10 ^ 57 * max 1 |(⟨1, 15⟩ : Decimal).toRat|) ∧
    ∃ r : Decimal, ln ⟨7, -100000000000000⟩ >>= exp = .ok r ∧
      |r.toRat - (⟨7, -100000000000000⟩ : Decimal).toRat| ≤
        1 / 10 ^ 57 * (|((⟨7, -100000000000000⟩ : Decimal).order : ℚ)| + 1) *
          (⟨7, -100000000000000⟩ : Decimal).toRat := by
  have greatest : Held ⟨1, 15⟩ := ⟨by decide +kernel, by decide, by decide⟩
  have least : Held ⟨7, -100000000000000⟩ := ⟨by decide +kernel, by decide, by decide⟩
  exact ⟨(exp_ln_inverse greatest).1 (by norm_num [toRat]),
    (exp_ln_inverse least).2 (by decide) (by decide +kernel)⟩

end ScientificCalculator.Decimal
