import Mathlib.Analysis.Complex.ExponentialBounds
import ScientificCalculator.Function.Exponential
import ScientificCalculator.Proofs.Decimal.Order
import ScientificCalculator.Proofs.Decimal.Scaled
import ScientificCalculator.Proofs.FixedPoint.Exponential
import ScientificCalculator.Proofs.FixedPoint.Logarithm

/-!
The exponential of a decimal is accurate in proportion to its value over the whole range of orders.
The argument is a multiple of `ln 10` and a remainder. The multiple becomes the power of ten without
an error of its own, but it is taken of a truncated `ln 10`, which costs as many units of the last
working digit as the power of ten has; the squarings of the remainder cost far less.
-/

namespace ScientificCalculator

section Ten
open FixedPoint

theorem lt_log_ten : 2.07 < Real.log 10 := by
  have cube : Real.log 2 * 3 ≤ Real.log 10 := by
    have power := Real.log_le_log (by norm_num) (by norm_num : (2 : ℝ) ^ 3 ≤ 10)
    rwa [Real.log_pow, mul_comm] at power
  linarith [Real.log_two_gt_d9]

theorem log_ten_lt : Real.log 10 < 2.8 := by
  have fourth : Real.log 10 ≤ Real.log 2 * 4 := by
    have power := Real.log_le_log (by norm_num) (by norm_num : (10 : ℝ) ≤ 2 ^ 4)
    rwa [Real.log_pow, mul_comm] at power
  linarith [Real.log_two_lt_d9]

/-- The logarithm of ten at the working digits is accurate to little more than one unit. -/
theorem abs_workingTen_sub_le :
    |(logarithmTen workingDigits : ℝ) - 10 ^ workingDigits * Real.log 10| ≤ 3 / 2 := by
  refine (abs_logarithmTen_sub_lt workingDigits).le.trans ?_
  rw [realCast_workingDigits]
  norm_num

theorem workingTen_bounds :
    0 < logarithmTen workingDigits ∧ (logarithmTen workingDigits : ℝ) ≤ 3 * 10 ^ workingDigits := by
  obtain ⟨under, upper⟩ := abs_le.1 abs_workingTen_sub_le
  have many : (10 : ℝ) ≤ 10 ^ workingDigits := le_self_pow₀ (by norm_num) (by decide)
  have low := mul_le_mul_of_nonneg_left lt_log_ten.le (by linarith : (0 : ℝ) ≤ 10 ^ workingDigits)
  have high := mul_le_mul_of_nonneg_left log_ten_lt.le (by linarith : (0 : ℝ) ≤ 10 ^ workingDigits)
  constructor
  · have pos : (0 : ℝ) < logarithmTen workingDigits := by linarith
    exact_mod_cast pos
  · linarith

end Ten

namespace Decimal
open FixedPoint
variable {x r : Decimal}

/-- The exponential of an argument at the working digits. -/
def ofWorkingArgument (scaled : Int) : Decimal :=
  ofParts (exponential (scaled % logarithmTen workingDigits) workingDigits)
    (scaled / logarithmTen workingDigits - workingDigits)

/-- A nonzero result is that of zero, or one of a multiple of `ln 10` and its remainder. -/
theorem exp_eq_ok (found : x.exp = .ok r) (nonzero : r.mantissa ≠ 0) :
    x.mantissa = 0 ∧ r = one ∨
      x.mantissa ≠ 0 ∧ x.order ≤ 16 ∧
        (x.toScaled workingDigits / logarithmTen workingDigits).natAbs ≤ maxOrder ∧
        r = ofWorkingArgument (x.toScaled workingDigits) := by
  unfold exp at found
  split at found
  · cases found
    exact .inl ⟨‹_›, rfl⟩
  · rename_i argument
    split at found
    · split at found
      · cases found
        exact absurd rfl nonzero
      · cases found
    · rename_i order
      simp only at found
      split at found
      · cases found
      · split at found
        · cases found
          exact absurd rfl nonzero
        · cases found
          have limit : exponentialOrderLimit = 17 := rfl
          exact .inr ⟨argument, by omega, by omega, rfl⟩

theorem exp_of_multiple_le (argument : x.mantissa ≠ 0) (order : x.order ≤ 16)
    (few : (x.toScaled workingDigits / logarithmTen workingDigits).natAbs ≤ maxOrder) :
    x.exp = .ok (ofWorkingArgument (x.toScaled workingDigits)) := by
  have limit : ¬ exponentialOrderLimit ≤ x.order := by
    rw [exponentialOrderLimit]
    omega
  rw [exp, if_neg (show ¬ x.IsZero from argument), if_neg limit]
  simp only
  rw [if_neg (by omega), if_neg (by omega)]
  rfl

/-- The multiple of `ln 10` and the remainder stand for the argument. -/
theorem abs_reduction_le {scaled : Int} {value : ℝ}
    (near : |(scaled : ℝ) - 10 ^ workingDigits * value| ≤ 1 / 2)
    (few : (scaled / logarithmTen workingDigits).natAbs ≤ maxOrder) :
    |(scaled / logarithmTen workingDigits : Int) * Real.log 10 +
      (scaled % logarithmTen workingDigits : Int) / 10 ^ workingDigits - value| ≤ 2 / 10 ^ 60 := by
  have power : (0 : ℝ) < 10 ^ workingDigits := by positivity
  have parts := Int.emod_add_mul_ediv scaled (logarithmTen workingDigits)
  have ten := abs_workingTen_sub_le
  generalize scaled / logarithmTen workingDigits = k at few parts ⊢
  generalize scaled % logarithmTen workingDigits = rest at parts ⊢
  generalize logarithmTen workingDigits = truncated at parts ten ⊢
  have parts' : (rest + truncated * k : ℝ) = scaled := by exact_mod_cast parts
  have multiples : |(k : ℝ)| ≤ 10 ^ 15 := by
    rw [← Int.cast_abs, ← Int.natCast_natAbs]
    exact_mod_cast few
  have apart : k * Real.log 10 + rest / 10 ^ workingDigits - value =
      (scaled - 10 ^ workingDigits * value - k * (truncated - 10 ^ workingDigits * Real.log 10)) /
        10 ^ workingDigits := by
    rw [← parts']
    field_simp
    ring
  have lost := mul_le_mul multiples ten (abs_nonneg _) (by positivity)
  rw [← abs_mul] at lost
  rw [apart, abs_div, abs_of_pos power, div_le_iff₀ power]
  refine (abs_sub _ _).trans ((add_le_add near lost).trans ?_)
  rw [tenPow_workingDigits]
  norm_num

theorem exponent_within (held : x.Held) (order : x.order ≤ 16) :
    x.exponent + workingDigits ≤ greatestExponent := by
  have exponent := exponent_le_of_order_le held (by decide) order (by decide)
  simp only [workingDigits, precision, greatestExponent]
  omega

theorem remainder_bounds (scaled : Int) :
    0 ≤ scaled % logarithmTen workingDigits ∧
      ((scaled % logarithmTen workingDigits : Int) : ℝ) ≤ 3 * 10 ^ workingDigits := by
  obtain ⟨pos, three⟩ := workingTen_bounds
  have below := (Int.emod_lt_of_pos scaled pos).le
  exact ⟨Int.emod_nonneg scaled pos.ne', le_trans (by exact_mod_cast below) three⟩

/-- The exponential of a remainder is accurate enough for the rounding to decide on the error. -/
theorem within_exponential {rest : Int} (natural : 0 ≤ rest)
    (small : (rest : ℝ) ≤ 3 * 10 ^ workingDigits) :
    Within (1 / 10 ^ 68) (exponential rest workingDigits)
      (10 ^ workingDigits * Real.exp (rest / 10 ^ workingDigits)) := by
  have accurate := abs_exponential_sub_le natural small (by norm_num [workingDigits, precision])
  have units : (3 ^ 10 * (2 * workingDigits + 5) : ℝ) ≤ 1 / 10 ^ 68 * 10 ^ workingDigits := by
    rw [tenPow_workingDigits, realCast_workingDigits]
    norm_num
  have pos : (0 : ℝ) < 10 ^ workingDigits * Real.exp (rest / 10 ^ workingDigits) := by positivity
  rw [Within, abs_of_pos pos, ← mul_assoc]
  exact accurate.trans (mul_le_mul_of_nonneg_right units (Real.exp_pos _).le)

theorem digitCount_exponential_le {rest : Int} (natural : 0 ≤ rest)
    (small : (rest : ℝ) ≤ 3 * 10 ^ workingDigits) :
    digitCount (exponential rest workingDigits).natAbs ≤ 77 := by
  have accurate := (within_exponential natural small).abs_le
  rw [tenPow_workingDigits] at accurate small
  have value : Real.exp (rest / 10 ^ 75) ≤ 3 ^ 3 := by
    have three : (rest : ℝ) / 10 ^ 75 ≤ (3 : ℕ) * 1 := by
      rw [div_le_iff₀ (by norm_num)]
      push_cast
      linarith
    refine (Real.exp_le_exp.2 three).trans ?_
    rw [Real.exp_nat_mul]
    exact pow_le_pow_left₀ (Real.exp_pos 1).le (by linarith [Real.exp_one_lt_d9]) 3
  rw [abs_of_pos (by positivity : (0 : ℝ) < 10 ^ 75 * Real.exp (rest / 10 ^ 75))] at accurate
  apply digitCount_natAbs_le (by decide)
  linarith

/-- The power of ten and the exponential of the remainder make up the exponential. -/
theorem exp_parts (k rest : Int) :
    10 ^ workingDigits * Real.exp (rest / 10 ^ workingDigits) * 10 ^ (k - workingDigits) =
      Real.exp (k * Real.log 10 + rest / 10 ^ workingDigits) := by
  rw [Real.exp_add, mul_comm (k : ℝ), Real.exp_mul, Real.exp_log (by norm_num), Real.rpow_intCast,
    zpow_sub₀ (by norm_num), zpow_natCast]
  field_simp

/-- The rounding, the remainder and the multiples of `ln 10` together stay far below the last digit
but one that is kept. -/
theorem within_ofWorkingArgument {scaled : Int} {value : ℝ}
    (near : |(scaled : ℝ) - 10 ^ workingDigits * value| ≤ 1 / 2)
    (few : (scaled / logarithmTen workingDigits).natAbs ≤ maxOrder) :
    Within (1 / 10 ^ 58) (ofWorkingArgument scaled).toRat (Real.exp value) := by
  have reduced := abs_reduction_le near few
  obtain ⟨natural, small⟩ := remainder_bounds scaled
  rw [ofWorkingArgument]
  generalize scaled % logarithmTen workingDigits = rest at reduced natural small ⊢
  generalize scaled / logarithmTen workingDigits = k at few reduced ⊢
  have length := digitCount_exponential_le natural small
  have remainder := (within_exponential natural small).mul_right (10 ^ (k - workingDigits : Int))
  rw [exp_parts] at remainder
  have rounded : Within (1 / (2 * 10 ^ 59))
      (ofParts (exponential rest workingDigits) (k - workingDigits)).toRat
      (exponential rest workingDigits * 10 ^ (k - workingDigits : Int)) := by
    apply within_ofParts
    · simp only [workingDigits, precision, leastExponent, maxOrder] at *
      omega
    · simp only [workingDigits, precision, greatestExponent, maxOrder] at *
      omega
  have total := (rounded.trans remainder (by positivity)).trans
    (within_exp reduced (by norm_num)) (by positivity)
  exact total.mono (by norm_num)

theorem ofWorkingArgument_ne_zero (scaled : Int) : ¬ (ofWorkingArgument scaled).IsZero := by
  obtain ⟨natural, small⟩ := remainder_bounds scaled
  have accurate := within_exponential natural small
  apply mantissa_ofParts_ne_zero
  intro zero
  have pos : (0 : ℝ) < 10 ^ workingDigits *
      Real.exp ((scaled % logarithmTen workingDigits : Int) / 10 ^ workingDigits) := by positivity
  rw [Within, zero, Int.cast_zero, zero_sub, abs_neg, abs_of_pos pos] at accurate
  linarith

/-- The exponential is accurate in proportion to its value, whatever multiple of `ln 10` the
argument holds. -/
theorem exp_accurate (held : x.Held) (found : x.exp = .ok r) (nonzero : ¬ r.IsZero) :
    |(r.toRat : ℝ) - Real.exp x.toRat| ≤ 1 / 10 ^ 58 * Real.exp x.toRat := by
  rcases exp_eq_ok found nonzero with ⟨zero, rfl⟩ | ⟨-, order, few, rfl⟩
  · rw [toRat_eq_zero_iff.2 zero, toRat_one]
    norm_num
  · have scaled := abs_toScaled_sub_real_le held (by decide) (exponent_within held order)
    have close := within_ofWorkingArgument scaled few
    rwa [Within, Real.abs_exp] at close

/-- The number of times `ln 10` goes into an argument that is not too large. -/
theorem natAbs_multiple_le {scaled : Int} {value : ℝ}
    (near : |(scaled : ℝ) - 10 ^ workingDigits * value| ≤ 1 / 2) (small : |value| ≤ 2 * 10 ^ 15) :
    (scaled / logarithmTen workingDigits).natAbs ≤ maxOrder := by
  have power : (1 : ℝ) ≤ 10 ^ workingDigits := one_le_pow₀ (by norm_num)
  have positive := workingTen_bounds.1
  have ten : 2 * (10 : ℝ) ^ workingDigits + 1 ≤ logarithmTen workingDigits := by
    have accurate := (abs_le.1 abs_workingTen_sub_le).1
    rw [tenPow_workingDigits] at accurate ⊢
    linarith [lt_log_ten]
  have size : |(scaled : ℝ)| ≤ 10 ^ 15 * logarithmTen workingDigits := by
    linarith [abs_le_of_near near small]
  obtain ⟨under, upper⟩ := abs_le.1 size
  have under' : -(10 ^ 15 * logarithmTen workingDigits) ≤ scaled := by exact_mod_cast under
  have upper' : scaled ≤ 10 ^ 15 * logarithmTen workingDigits := by exact_mod_cast upper
  have most := Int.ediv_le_of_le_mul positive upper'
  have least : -10 ^ 15 ≤ scaled / logarithmTen workingDigits :=
    Int.le_ediv_of_mul_le positive (by linarith)
  rw [maxOrder]
  omega

/-- An argument that is not too large has an exponential, that of a few multiples of `ln 10`. -/
theorem exp_of_abs_le (held : x.Held) (nonzero : x.mantissa ≠ 0) (small : |x.toRat| ≤ 2 * 10 ^ 15) :
    x.order ≤ 16 ∧ (x.toScaled workingDigits / logarithmTen workingDigits).natAbs ≤ maxOrder ∧
      x.exp = .ok (ofWorkingArgument (x.toScaled workingDigits)) := by
  have order : x.order ≤ 16 := by
    have below : |x.toRat| < 10 ^ (17 : Int) := small.trans_lt (by norm_num)
    have place := firstPlace_lt_of_abs_lt nonzero below
    have least := leadingOrder_le held
    rw [order_eq nonzero]
    omega
  have value : |(x.toRat : ℝ)| ≤ 2 * 10 ^ 15 := by exact_mod_cast small
  have few := natAbs_multiple_le (abs_toScaled_sub_real_le held (by decide) (exponent_within held order)) value
  exact ⟨order, few, exp_of_multiple_le nonzero order few⟩

theorem exp_returns (held : x.Held) (small : |x.toRat| ≤ 2 * 10 ^ 15) :
    ∃ r : Decimal, x.exp = .ok r ∧ ¬ r.IsZero := by
  by_cases zero : x.IsZero
  · exact ⟨one, if_pos zero, by decide⟩
  · obtain ⟨-, -, found⟩ := exp_of_abs_le held zero small
    exact ⟨_, found, ofWorkingArgument_ne_zero _⟩

/-- At the far end of the range the power of ten is almost the greatest. -/
theorem exp_accurate_far : ∃ r : Decimal, exp ⟨2, 15⟩ = .ok r ∧ ¬ r.IsZero ∧
    |(r.toRat : ℝ) - Real.exp (⟨2, 15⟩ : Decimal).toRat| ≤
      1 / 10 ^ 58 * Real.exp (⟨2, 15⟩ : Decimal).toRat := by
  have held : Held ⟨2, 15⟩ := ⟨by decide +kernel, by decide, by decide⟩
  obtain ⟨r, found, nonzero⟩ := exp_returns held (by norm_num [toRat])
  exact ⟨r, found, nonzero, exp_accurate held found nonzero⟩

end Decimal

end ScientificCalculator
