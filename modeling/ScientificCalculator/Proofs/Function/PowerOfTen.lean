import ScientificCalculator.Proofs.Decimal.Shift
import ScientificCalculator.Proofs.Function.LogarithmSign

/-!
Powers of ten with integer exponents are exact, and so are their decimal logarithms: nothing is left
of the logarithm but the exponent times the same `ln 10` by which it is then divided. The product
with such a power moves the exponent of a canonical number, so the operator that moves it is a
product.
-/

namespace ScientificCalculator.Decimal

open FixedPoint

variable {x : Decimal} {m e k : Int}

section Product

/-- A canonical mantissa is neither rounded nor stripped of zeros. -/
theorem ofParts_of_canonical (canonical : Canonical ⟨m, e⟩) (nonzero : m ≠ 0) :
    ofParts m e = ⟨m, saturate e⟩ := by
  have value : (⟨m, e⟩ : Decimal).toRat = roundSignificant (m * 10 ^ e) :=
    (roundSignificant_toRat canonical).symm
  have parts := eq_of_toRat_eq_round canonical nonzero value
  have mantissa : m = (ofParts m e).mantissa := congrArg Decimal.mantissa parts
  have exponent : e = fullExponent m e := congrArg Decimal.exponent parts
  apply Decimal.ext
  · exact mantissa.symm
  · rw [exponent_ofParts nonzero, ← exponent]

theorem saturate_saturate (e : Int) : saturate (saturate e) = saturate e :=
  saturate_of_mem (saturate_bounds e).1 (saturate_bounds e).2

/-- A product with a power of ten moves the exponent, and stops where a shift stops. -/
theorem mul_tenPow (canonical : x.Canonical) (k : Int) : x * tenPow k = x.shift k := by
  show ofParts (x.mantissa * 1) (saturate (x.exponent + k)) = _
  rw [Int.mul_one, shift]
  split
  · rename_i zero
    rw [show x.mantissa = 0 from zero, ofParts_zero]
  · rename_i nonzero
    rw [ofParts_of_canonical (canonical_withExponent canonical nonzero _) nonzero,
      saturate_saturate]

/-- Whatever the exponent is, a shift by it is the product with its power of ten, or the same
error. -/
theorem timesTenPower_eq (canonical : x.Canonical) (y : Decimal) :
    x.timesTenPower y = (do return x * (← y.tenPower)) := by
  rw [timesTenPower]
  split
  · rename_i n read
    split
    · rename_i bounded
      have power : y.tenPower = .ok (tenPow n) := by
        rw [tenPower, read]
        exact if_pos bounded
      rw [power, ← mul_tenPow canonical]
      rfl
    · rfl
  · rfl

theorem toRat_shift_of_range (least : leastExponent ≤ x.exponent + k)
    (most : x.exponent + k ≤ greatestExponent) : (x.shift k).toRat = x.toRat * 10 ^ k := by
  rw [shift]
  split
  · rename_i zero
    rw [toRat_zero, toRat_eq_zero_iff.2 zero, zero_mul]
  · rw [saturate_of_mem least most, toRat, toRat, zpow_add₀ (by norm_num), mul_assoc]

end Product

section Exponent
variable (bounded : k.natAbs ≤ maxOrder)
include bounded

theorem digitCount_exponent_le : digitCount k.natAbs ≤ 16 :=
  digitCount_le (by decide) (bounded.trans_lt (by decide))

theorem toRat_exponent : (ofInt k).toRat = k :=
  toRat_ofInt ((digitCount_exponent_le bounded).trans (by decide))

theorem tenPower_exponent : (ofInt k).tenPower = .ok (tenPow k) := by
  have range : leastExponent ≤ -maxOrder ∧ (maxOrder : Int) ≤ greatestExponent := by decide
  have read : (ofInt k).toInt64? = some k :=
    toInt64?_eq_some (held_ofParts k 0) (toRat_exponent bounded) (by omega) (by omega)
  rw [tenPower, read]
  exact if_pos bounded

/-- The exponent is read back from the working digits without rounding. -/
theorem ofScaled_exponent : ofScaled (k * tenTo workingDigits) workingDigits = ofInt k := by
  rw [ofScaled_eq _ (by decide)]
  apply ofParts_eq_of_toRat_eq (held_ofParts k 0)
  have whole : ((k * tenTo workingDigits : Int) : ℚ) * 10 ^ (-workingDigits : Int) = k := by
    rw [Int.cast_mul, Int.cast_natCast, natCast_tenTo, zpow_neg, zpow_natCast, mul_assoc,
      mul_inv_cancel₀ (by positivity), mul_one]
  have kept := roundSignificant_toRat (canonical_ofInt k)
  rw [toRat_exponent bounded] at kept
  exact (toRat_exponent bounded).trans (whole.symm ▸ kept.symm)

theorem log10_tenPow : (tenPow k).log10 = .ok (ofInt k) := by
  have range : leastExponent ≤ -maxOrder := by decide
  have scaled := scaledLogarithm_tenPow (k := k) (by omega) (by omega)
  have positive : (tenPow k).IsPositive := Int.one_pos
  have ten := workingTen_bounds.1
  rw [log10, if_pos positive, scaled, mul_right_comm, Int.mul_tdiv_cancel _ ten.ne',
    ofScaled_exponent bounded]

end Exponent

/-- Raising ten to an integer and taking the decimal logarithm undo each other exactly, and the shift
by this integer is the exact product with the power. -/
theorem powers_of_ten_exact (bounded : k.natAbs ≤ 10 ^ 15) :
    (ofInt k).tenPower = .ok (tenPow k) ∧ (tenPow k).toRat = 10 ^ k ∧
    (tenPow k).log10 = .ok (ofInt k) ∧ (ofInt k).toRat = k ∧
    ∀ a : Decimal, a.Canonical →
      a.timesTenPower (ofInt k) = .ok (a * tenPow k) ∧
      (leastExponent ≤ a.exponent + k → a.exponent + k ≤ greatestExponent →
        (a * tenPow k).toRat = a.toRat * 10 ^ k) := by
  have power := tenPower_exponent bounded
  refine ⟨power, ?_, log10_tenPow bounded, toRat_exponent bounded, fun a canonical => ⟨?_, ?_⟩⟩
  · rw [toRat, tenPow, Int.cast_one, one_mul]
  · rw [timesTenPower_eq canonical, power]
    rfl
  · rw [mul_tenPow canonical]
    exact toRat_shift_of_range

/-- The least exponent, and a number of sixty digits that is moved by it. -/
theorem powers_of_ten_exact_least :
    (ofInt (-10 ^ 15)).tenPower = .ok (tenPow (-10 ^ 15)) ∧
      (tenPow (-10 ^ 15)).log10 = .ok (ofInt (-10 ^ 15)) ∧
      timesTenPower ⟨10 ^ 60 - 1, 7⟩ (ofInt (-10 ^ 15)) = .ok (⟨10 ^ 60 - 1, 7⟩ * tenPow (-10 ^ 15)) ∧
      ((⟨10 ^ 60 - 1, 7⟩ : Decimal) * tenPow (-10 ^ 15)).toRat =
        (⟨10 ^ 60 - 1, 7⟩ : Decimal).toRat * 10 ^ (-10 ^ 15 : Int) := by
  have nines : Held ⟨10 ^ 60 - 1, 7⟩ := held_of_written (by decide)
  obtain ⟨power, -, logarithm, -, shifts⟩ := powers_of_ten_exact (k := -10 ^ 15) (by decide)
  obtain ⟨shifted, value⟩ := shifts _ nines.canonical
  exact ⟨power, logarithm, shifted, value (by decide) (by decide)⟩

end ScientificCalculator.Decimal
