import Mathlib.Analysis.SpecialFunctions.Trigonometric.Bounds
import ScientificCalculator.Proofs.FixedPoint.SineCosine
import ScientificCalculator.Proofs.Function.Angle

/-!
Sine and cosine of decimals. Both are periodic and change no faster than the angle, so the units
that the reduction and the series lose stay far below the last digit that is kept. Only a result
that is zero to fifty places is not rounded but dropped.
-/

namespace ScientificCalculator

namespace Decimal

/-- The result is zero in place of a number below `10 ^ -50`, or accurate to 59 places. -/
def Approximates (r : Decimal) (value : ℝ) : Prop :=
  r = zero ∧ |value| ≤ (1.01 / 10 ^ 50 : ℚ) ∨ |(r.toRat : ℝ) - value| ≤ (1 / 10 ^ 59 : ℚ)

theorem approximates_dropNegligible {r : Decimal} {value : ℝ}
    (near : |(r.toRat : ℝ) - value| ≤ 1 / 10 ^ 59) : r.dropNegligible.Approximates value := by
  unfold dropNegligible
  split
  · rename_i negligible
    have place : r.firstPlace + 1 ≤ -50 := by
      have small := negligible.2
      simp only [leadingOrder, saturate, leastExponent, greatestExponent, leastResultOrder] at small
      rw [firstPlace]
      omega
    have tiny := (Rat.cast_le (K := ℝ)).2 ((lt_ten_zpow_firstPlace r).le.trans
      (zpow_le_zpow_right₀ (by norm_num) place))
    have triangle := abs_sub_abs_le_abs_sub value (r.toRat : ℝ)
    push_cast at tiny
    rw [abs_sub_comm] at triangle
    left
    refine ⟨rfl, ?_⟩
    norm_num at tiny near ⊢
    linarith
  · right
    push_cast
    exact near

/-- Working numbers that are accurate to a few hundred units give accurate results. -/
theorem approximates_ofWorking {n : Int} {value : ℝ} (unit : |value| ≤ 1)
    (near : |(n : ℝ) - 10 ^ workingDigits * value| ≤ 1000) : (ofWorking n).Approximates value := by
  have rounded := abs_ofScaled_sub_le (by decide) near (unit.trans (by norm_num)) (by norm_num)
  apply approximates_dropNegligible
  rw [tenPow_workingDigits] at rounded
  norm_num at rounded ⊢
  linarith

section Kernels
variable {f : ℝ → ℝ} {kernel angle : Int} {value : ℝ}

/-- A periodic function that changes no faster than the angle, whose fixed-point form is accurate,
is accurate at reduced angles. -/
theorem abs_kernel_sub_le_of_reduced
    (periodic : ∀ (a : ℝ) (turns : Int), f (a - turns * (2 * Real.pi)) = f a)
    (contracts : ∀ a b, |f a - f b| ≤ |a - b|) (reduced : Reduced angle value)
    (accurate : |(kernel : ℝ) - 10 ^ workingDigits * f (angle / 10 ^ workingDigits)| ≤
      4 * workingDigits + 54) :
    |(kernel : ℝ) - 10 ^ workingDigits * f value| ≤ 370 := by
  have power : (0 : ℝ) < 10 ^ workingDigits := by positivity
  obtain ⟨turns, near⟩ := reduced.near
  have moved : |10 ^ workingDigits * f (angle / 10 ^ workingDigits) -
      10 ^ workingDigits * f value| ≤ 10 := by
    have scaled := mul_le_mul_of_nonneg_left (contracts (angle / 10 ^ workingDigits)
      (value - turns * (2 * Real.pi))) power.le
    rw [← abs_scaled_sub, ← abs_scaled_sub, mul_div_cancel₀ _ power.ne', periodic] at scaled
    exact scaled.trans near
  rw [realCast_workingDigits] at accurate
  exact (abs_sub_le _ _ _).trans ((add_le_add accurate moved).trans (by norm_num))

theorem abs_sine_sub_le_of_reduced (reduced : Reduced angle value) :
    |(FixedPoint.sine angle workingDigits : ℝ) - 10 ^ workingDigits * Real.sin value| ≤ 370 :=
  abs_kernel_sub_le_of_reduced Real.sin_sub_int_mul_two_pi Real.abs_sin_sub_sin_le reduced
    (FixedPoint.abs_sine_sub_le reduced.small)

theorem abs_cosine_sub_le_of_reduced (reduced : Reduced angle value) :
    |(FixedPoint.cosine angle workingDigits : ℝ) - 10 ^ workingDigits * Real.cos value| ≤ 370 :=
  abs_kernel_sub_le_of_reduced Real.cos_sub_int_mul_two_pi Real.abs_cos_sub_cos_le reduced
    (FixedPoint.abs_cosine_sub_le reduced.small)

/-- Such a function makes accurate decimals. -/
theorem approximates_of_reduced
    (periodic : ∀ (a : ℝ) (turns : Int), f (a - turns * (2 * Real.pi)) = f a)
    (contracts : ∀ a b, |f a - f b| ≤ |a - b|) (unit : ∀ a, |f a| ≤ 1)
    (reduced : Reduced angle value)
    (accurate : |(kernel : ℝ) - 10 ^ workingDigits * f (angle / 10 ^ workingDigits)| ≤
      4 * workingDigits + 54) :
    (ofWorking kernel).Approximates (f value) :=
  approximates_ofWorking (unit value)
    ((abs_kernel_sub_le_of_reduced periodic contracts reduced accurate).trans (by norm_num))

end Kernels

variable {x : Decimal}

/-- Sine and cosine of every angle that is admitted are accurate, in either unit. -/
theorem sin_cos_accurate (held : x.Held) (inRange : x.order ≤ 1000) (unit : AngleUnit) :
    (∃ r, sin unit x = .ok r ∧ r.Approximates (Real.sin (unit.toRadians x.toRat))) ∧
      ∃ r, cos unit x = .ok r ∧ r.Approximates (Real.cos (unit.toRadians x.toRat)) := by
  obtain ⟨angle, found, reduced⟩ := reducedAngle_eq_ok held inRange unit
  rw [sin, cos, found]
  exact ⟨⟨_, rfl, approximates_of_reduced Real.sin_sub_int_mul_two_pi Real.abs_sin_sub_sin_le
      Real.abs_sin_le_one reduced (FixedPoint.abs_sine_sub_le reduced.small)⟩,
    ⟨_, rfl, approximates_of_reduced Real.cos_sub_int_mul_two_pi Real.abs_cos_sub_cos_le
      Real.abs_cos_le_one reduced (FixedPoint.abs_cosine_sub_le reduced.small)⟩⟩

/-- The greatest power of ten that is an angle, in radians. -/
theorem sin_cos_greatest_angle :
    (∃ r, sin .radians ⟨1, 1000⟩ = .ok r ∧
      r.Approximates (Real.sin (⟨1, 1000⟩ : Decimal).toRat)) ∧
    ∃ r, cos .radians ⟨1, 1000⟩ = .ok r ∧
      r.Approximates (Real.cos (⟨1, 1000⟩ : Decimal).toRat) := by
  have held : Held ⟨1, 1000⟩ := ⟨by decide +kernel, by decide, by decide⟩
  exact sin_cos_accurate held (by decide +kernel) .radians

end Decimal

end ScientificCalculator
