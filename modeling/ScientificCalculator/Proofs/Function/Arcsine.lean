import ScientificCalculator.Proofs.FixedPoint.Arctangent
import ScientificCalculator.Proofs.Function.UnitRange

/-!
The arcsine in fixed point. It divides by a truncated cosine, which is tiny next to one, but the
squares of sine and cosine still add up to one but for two units. So the sine of the arctangent of
their quotient is the number it was computed from, as near to one as anywhere else. The arcsine is
odd, and never beyond a quarter turn.
-/

namespace ScientificCalculator

open FixedPoint

section Range

/-- Every arctangent lies between zero and a quarter turn, or opposite to that. -/
theorem positiveArctangent_bounds (x : Nat) :
    0 ≤ positiveArctangent x workingDigits ∧
      positiveArctangent x workingDigits ≤ (FixedPoint.pi workingDigits).tdiv 2 := by
  have quarter := abs_halfPi_sub_le workingDigits
  -- an arctangent of at most one is an eighth of a turn or less
  have unit {y : Nat} (small : y ≤ tenTo workingDigits) :
      0 ≤ unitArctangent y workingDigits ∧
        unitArctangent y workingDigits ≤ (FixedPoint.pi workingDigits).tdiv 2 := by
    obtain ⟨natural, accurate⟩ := unitArctangent_spec small
    refine ⟨natural, ?_⟩
    have power : (0 : ℝ) < 10 ^ workingDigits := by positivity
    have eighth : exactArctangent y workingDigits ≤ 10 ^ workingDigits * (Real.pi / 4) := by
      have size : (y : ℝ) / 10 ^ workingDigits ≤ 1 := by
        rw [div_le_one power, ← realCast_tenTo]
        exact_mod_cast small
      rw [exactArctangent_eq, ← Real.arctan_one]
      exact mul_le_mul_of_nonneg_left (Real.arctan_mono size) power.le
    have less : (unitArctangent y workingDigits : ℝ) ≤ (FixedPoint.pi workingDigits).tdiv 2 := by
      have three := mul_le_mul_of_nonneg_left Real.pi_gt_three.le power.le
      rw [realCast_workingDigits, abs_le] at quarter accurate
      rw [tenPow_workingDigits] at *
      linarith
    exact_mod_cast less
  rw [positiveArctangent]
  split
  · rename_i above
    have inside : tenTo workingDigits * tenTo workingDigits / x ≤ tenTo workingDigits :=
      Nat.div_le_of_le_mul (Nat.mul_le_mul_right _ above.le)
    obtain ⟨low, high⟩ := unit inside
    constructor <;> omega
  · rename_i below
    exact unit (not_lt.1 below)

end Range

namespace Decimal
variable {n : Int}

theorem abs_arctangent_le (x : Int) :
    |arctangent x workingDigits| ≤ (FixedPoint.pi workingDigits).tdiv 2 := by
  obtain ⟨low, high⟩ := positiveArctangent_bounds x.natAbs
  rw [arctangent, abs_le]
  split <;> omega

/-- The truncated cosine that belongs to a sine. -/
def cosineBeside (sine : Int) : Nat :=
  FixedPoint.squareRoot (tenTo workingDigits - sine * sine / tenTo workingDigits).toNat
    workingDigits

theorem scaledArcsine_of_ne (inner : n.natAbs ≠ tenTo workingDigits) : scaledArcsine n =
    arctangent ((n * tenTo workingDigits).tdiv (cosineBeside n)) workingDigits := if_neg inner

theorem scaledArcsine_unit :
    scaledArcsine (tenTo workingDigits) = (FixedPoint.pi workingDigits).tdiv 2 := by
  have positive : (0 : Int) < tenTo workingDigits := by exact_mod_cast tenTo_pos workingDigits
  rw [scaledArcsine, if_pos (Int.natAbs_natCast _), Int.sign_eq_one_of_pos positive, Int.one_mul]

theorem cosineBeside_neg (n : Int) : cosineBeside (-n) = cosineBeside n := by
  rw [cosineBeside, cosineBeside, Int.neg_mul_neg]

theorem scaledArcsine_neg (n : Int) : scaledArcsine (-n) = -scaledArcsine n := by
  by_cases unit : n.natAbs = tenTo workingDigits
  · rw [scaledArcsine, scaledArcsine, Int.natAbs_neg, if_pos unit, if_pos unit, Int.sign_neg,
      Int.neg_mul]
  · have unit' : (-n).natAbs ≠ tenTo workingDigits := by rwa [Int.natAbs_neg]
    rw [scaledArcsine_of_ne unit, scaledArcsine_of_ne unit', cosineBeside_neg, Int.neg_mul,
      Int.neg_tdiv, arctangent_opposite]

theorem abs_scaledArcsine_le (n : Int) :
    |scaledArcsine n| ≤ (FixedPoint.pi workingDigits).tdiv 2 := by
  by_cases unit : n.natAbs = tenTo workingDigits
  · obtain ⟨low, high⟩ := positiveArctangent_bounds 0
    obtain rfl | rfl : n = tenTo workingDigits ∨ n = -tenTo workingDigits := by omega
    · rw [scaledArcsine_unit, abs_of_nonneg (low.trans high)]
    · rw [scaledArcsine_neg, abs_neg, scaledArcsine_unit, abs_of_nonneg (low.trans high)]
  · rw [scaledArcsine_of_ne unit]
    exact abs_arctangent_le _

/-- The squares of sine and cosine add up to one, but for two units. -/
theorem abs_squares_sub_le (within : n.natAbs ≤ tenTo workingDigits) :
    |(n : ℝ) ^ 2 + (cosineBeside n : ℝ) ^ 2 - (10 ^ workingDigits) ^ 2| ≤
      2 * 10 ^ workingDigits := by
  have scale : (0 : Int) < tenTo workingDigits := by exact_mod_cast tenTo_pos workingDigits
  have square : n * n ≤ tenTo workingDigits * tenTo workingDigits := by
    rw [← Int.natAbs_mul_self]
    exact_mod_cast Nat.mul_self_le_mul_self within
  have quotient := Int.ediv_mul_le (n * n) scale.ne'
  have remainder := Int.lt_ediv_add_one_mul_self (n * n) scale
  have natural : 0 ≤ n * n / tenTo workingDigits := Int.ediv_nonneg (mul_self_nonneg n) scale.le
  have most : n * n / tenTo workingDigits ≤ tenTo workingDigits :=
    Int.ediv_le_of_le_mul scale square
  rw [cosineBeside]
  generalize n * n / tenTo workingDigits = q at quotient remainder natural most ⊢
  obtain ⟨r, radicand⟩ : ∃ r : Nat, (tenTo workingDigits - q : Int) = r :=
    Int.eq_ofNat_of_zero_le (by omega)
  obtain ⟨low, high⟩ := squareRoot_bounds r workingDigits
  rw [radicand, Int.toNat_natCast]
  generalize FixedPoint.squareRoot r workingDigits = c at low high ⊢
  have quotient' : (q : ℝ) * 10 ^ workingDigits ≤ n * n := by
    rw [← realCast_tenTo]
    exact_mod_cast quotient
  have remainder' : (n : ℝ) * n ≤ (q + 1) * 10 ^ workingDigits := by
    rw [← realCast_tenTo]
    exact_mod_cast remainder.le
  have radicand' : (r : ℝ) = 10 ^ workingDigits - q := by
    rw [← realCast_tenTo]
    exact_mod_cast radicand.symm
  have natural' : (0 : ℝ) ≤ q := by exact_mod_cast natural
  have power : (0 : ℝ) < 10 ^ workingDigits := by positivity
  rw [radicand'] at low high
  have small : (c : ℝ) ≤ 10 ^ workingDigits := by
    apply le_of_sq_le_sq _ power.le
    linarith [mul_nonneg natural' power.le]
  rw [abs_le]
  constructor <;> linarith

/-- The sine of an angle whose tangent is a quotient is the quotient by the hypotenuse. If that is
within two units of the scale, so is the sine of the number above. -/
theorem abs_sin_arctan_div_sub_le {a c scale : ℝ} (pos : 0 < c) (scaled : 0 < scale)
    (squares : |a ^ 2 + c ^ 2 - scale ^ 2| ≤ 2 * scale) :
    |scale * Real.sin (Real.arctan (a / c)) - a| ≤ 2 := by
  have hypotenuse : 0 < √(a ^ 2 + c ^ 2) := Real.sqrt_pos.2 (by positivity)
  have square : √(a ^ 2 + c ^ 2) ^ 2 = a ^ 2 + c ^ 2 := Real.sq_sqrt (by positivity)
  have leg : |a| ≤ √(a ^ 2 + c ^ 2) := Real.abs_le_sqrt (by linarith [sq_nonneg c])
  have sine : Real.sin (Real.arctan (a / c)) = a / √(a ^ 2 + c ^ 2) := by
    have root : √(1 + (a / c) ^ 2) = √(a ^ 2 + c ^ 2) / c := by
      rw [← Real.sqrt_sq pos.le, ← Real.sqrt_div' _ (sq_nonneg c), Real.sqrt_sq pos.le]
      congr 1
      field_simp
      ring
    rw [Real.sin_arctan, root]
    field_simp
  rw [sine]
  generalize √(a ^ 2 + c ^ 2) = h at hypotenuse square leg ⊢
  have close : |scale - h| ≤ 2 := by
    have product : a ^ 2 + c ^ 2 - scale ^ 2 = -((scale - h) * (scale + h)) := by
      linear_combination -square
    rw [product, abs_neg, abs_mul, abs_of_pos (add_pos scaled hypotenuse)] at squares
    have larger := mul_le_mul_of_nonneg_left
      (le_add_of_nonneg_right hypotenuse.le : scale ≤ scale + h) (abs_nonneg (scale - h))
    exact le_of_mul_le_mul_right (larger.trans squares) scaled
  have apart : scale * (a / h) - a = a / h * (scale - h) := by
    field_simp
  rw [apart, abs_mul, abs_div, abs_of_pos hypotenuse]
  calc |a| / h * |scale - h| ≤ 1 * 2 :=
        mul_le_mul (div_le_one_of_le₀ leg hypotenuse.le) close (abs_nonneg _) zero_le_one
    _ = 2 := one_mul 2

theorem abs_scaled_sin_sub_le {angle value : ℝ} (digits : Nat) {error : ℝ}
    (near : |angle - 10 ^ digits * value| ≤ error) :
    |10 ^ digits * Real.sin (angle / 10 ^ digits) - 10 ^ digits * Real.sin value| ≤ error := by
  have power : (0 : ℝ) < 10 ^ digits := by positivity
  have contracts := mul_le_mul_of_nonneg_left
    (Real.abs_sin_sub_sin_le (angle / 10 ^ digits) value) power.le
  rw [← abs_scaled_sub, ← abs_scaled_sub, mul_div_cancel₀ _ power.ne'] at contracts
  exact contracts.trans near

/-- The sine of the arcsine is the number it is of, but for the units that the arctangent loses. -/
theorem abs_sin_scaledArcsine_sub_le (argument : ArcsineArgument n) :
    |10 ^ workingDigits * Real.sin (scaledArcsine n / 10 ^ workingDigits) - n| ≤ 50000 := by
  have power : (0 : ℝ) < 10 ^ workingDigits := by positivity
  by_cases unit : n.natAbs = tenTo workingDigits
  · have quarter := abs_halfPi_sub_le workingDigits
    have turned := abs_scaled_sin_sub_le workingDigits quarter
    rw [Real.sin_pi_div_two, mul_one, realCast_workingDigits] at turned
    obtain rfl | rfl : n = tenTo workingDigits ∨ n = -tenTo workingDigits := by omega
    · rw [scaledArcsine_unit, Int.cast_natCast, realCast_tenTo]
      exact turned.trans (by norm_num)
    · rw [scaledArcsine_neg, scaledArcsine_unit, Int.cast_neg, Int.cast_neg, Int.cast_natCast,
        realCast_tenTo, neg_div, Real.sin_neg, mul_neg, neg_sub_neg, abs_sub_comm]
      exact turned.trans (by norm_num)
  · have divides : 0 < cosineBeside n := argument.divisor unit
    have divides' : (0 : ℝ) < cosineBeside n := by exact_mod_cast divides
    have kernel := abs_arctangent_sub_le ((n * tenTo workingDigits).tdiv (cosineBeside n))
      workingDigits
    have truncated := abs_tdiv_sub_lt (n * tenTo workingDigits) divides
    have quotient : ((n * tenTo workingDigits : Int) : ℝ) / cosineBeside n =
        10 ^ workingDigits * (n / cosineBeside n) := by
      rw [Int.cast_mul, Int.cast_natCast, realCast_tenTo]
      ring
    rw [quotient] at truncated
    have moved := (abs_exactArctangent_sub_le _ _ workingDigits).trans truncated.le
    have exactly : exactArctangent (10 ^ workingDigits * (n / cosineBeside n)) workingDigits =
        10 ^ workingDigits * Real.arctan (n / cosineBeside n) := by
      rw [exactArctangent_eq, mul_div_cancel_left₀ _ power.ne']
    rw [exactly] at moved
    rw [realCast_workingDigits] at kernel
    have angle := abs_scaled_sin_sub_le workingDigits
      ((abs_sub_le _ _ _).trans (add_le_add kernel moved))
    have sine := abs_sin_arctan_div_sub_le divides' power (abs_squares_sub_le argument.within)
    rw [scaledArcsine_of_ne unit]
    exact (abs_sub_le _ _ _).trans ((add_le_add angle sine).trans (by norm_num))

/-- The cosine of the arccosine is the number it is of as well. -/
theorem abs_cos_scaledArccosine_sub_le (argument : ArcsineArgument n) :
    |10 ^ workingDigits * Real.cos (((FixedPoint.pi workingDigits).tdiv 2 - scaledArcsine n : Int) /
      10 ^ workingDigits) - n| ≤ 60000 := by
  have power : (0 : ℝ) < 10 ^ workingDigits := by positivity
  have quarter := abs_halfPi_sub_le workingDigits
  have sine := abs_sin_scaledArcsine_sub_le argument
  generalize (FixedPoint.pi workingDigits).tdiv 2 = half at quarter ⊢
  generalize scaledArcsine n = arcsine at sine ⊢
  -- the complement of the arccosine is the arcsine, but for the error of the quarter turn
  have near : |(arcsine : ℝ) - 10 ^ workingDigits *
      (Real.pi / 2 - (half - arcsine : Int) / 10 ^ workingDigits)| ≤ workingDigits + 13 := by
    have apart : (arcsine : ℝ) - 10 ^ workingDigits *
        (Real.pi / 2 - (half - arcsine : Int) / 10 ^ workingDigits) =
        half - 10 ^ workingDigits * (Real.pi / 2) := by
      push_cast
      field_simp
      ring
    rwa [apart]
  have complement := abs_scaled_sin_sub_le workingDigits near
  rw [Real.sin_pi_div_two_sub, abs_sub_comm, realCast_workingDigits] at complement
  exact (abs_sub_le _ _ _).trans ((add_le_add complement sine).trans (by norm_num))

end Decimal

end ScientificCalculator
