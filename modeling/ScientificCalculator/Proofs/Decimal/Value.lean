import Mathlib.Data.Int.Log
import Mathlib.Data.Rat.Floor
import Mathlib.Tactic.FieldSimp
import Mathlib.Tactic.Linarith
import Mathlib.Tactic.Positivity
import ScientificCalculator.Decimal.Canonical

/-!
The rational number that a decimal stands for. Different canonical decimals stand for different
numbers.
-/

namespace ScientificCalculator

theorem ten_zpow_pos (n : Int) : (0 : ℚ) < 10 ^ n := zpow_pos (by norm_num) n

theorem natCast_tenTo (n : Nat) : ((tenTo n : Nat) : ℚ) = 10 ^ n := by
  show ((10 ^ n : Nat) : ℚ) = 10 ^ n
  norm_cast

theorem tenTo_pow (n k : Nat) : tenTo n ^ k = tenTo (n * k) := (Nat.pow_mul 10 n k).symm

theorem ten_zpow_eq_mul {i j : Int} (n : Nat) (places : i = n + j) :
    (10 : ℚ) ^ i = 10 ^ n * 10 ^ j := by
  rw [places, zpow_add₀ (by norm_num), zpow_natCast]

namespace Decimal

def toRat (x : Decimal) : ℚ := x.mantissa * 10 ^ x.exponent

variable {x y : Decimal}

theorem toRat_zero : zero.toRat = 0 := by
  show ((0 : Int) : ℚ) * 10 ^ (0 : Int) = 0
  norm_num

theorem double_neg (x : Decimal) : -(-x) = x := Decimal.ext (Int.neg_neg x.mantissa) rfl

theorem toRat_neg (x : Decimal) : (-x).toRat = -x.toRat := by
  show ((-x.mantissa : Int) : ℚ) * 10 ^ x.exponent = -(x.mantissa * 10 ^ x.exponent)
  rw [Int.cast_neg, neg_mul]

theorem toRat_eq_zero_iff : x.toRat = 0 ↔ x.mantissa = 0 := by
  rw [toRat, mul_eq_zero, Int.cast_eq_zero]
  exact or_iff_left (ten_zpow_pos _).ne'

/-- The value with more zeros at the end of the mantissa. -/
theorem toRat_widen {exponent : Int} (le : exponent ≤ x.exponent) :
    x.toRat = ((x.mantissa * tenTo (x.exponent - exponent).toNat : Int) : ℚ) * 10 ^ exponent := by
  have places : x.exponent = (x.exponent - exponent).toNat + exponent := by omega
  rw [Int.cast_mul, Int.cast_natCast, natCast_tenTo, mul_assoc, ← ten_zpow_eq_mul _ places]
  rfl

theorem exponent_of_canonical (canonical : x.Canonical) (zero : x.mantissa = 0) :
    x.exponent = 0 := by
  unfold Canonical at canonical
  rwa [if_pos zero] at canonical

theorem eq_zero_of_isZero (canonical : x.Canonical) (zero : x.IsZero) : x = Decimal.zero :=
  Decimal.ext zero (exponent_of_canonical canonical zero)

theorem not_dvd_of_canonical (canonical : x.Canonical) (nonzero : x.mantissa ≠ 0) :
    ¬ (10 : Int) ∣ x.mantissa := by
  unfold Canonical at canonical
  rw [if_neg nonzero] at canonical
  exact canonical.1

theorem digitCount_of_canonical (canonical : x.Canonical) :
    digitCount x.mantissa.natAbs ≤ precision := by
  unfold Canonical at canonical
  split at canonical
  · rename_i zero
    rw [zero, Int.natAbs_zero, digitCount_of_lt (by decide)]
    decide
  · exact canonical.2

/-- Of two decimals with the same value, a greater exponent makes the mantissa of the other end in
zero. -/
theorem exponent_le_of_toRat_eq (canonical : x.Canonical) (nonzero : x.mantissa ≠ 0)
    (same : x.toRat = y.toRat) : y.exponent ≤ x.exponent := by
  by_contra more
  have le : x.exponent ≤ y.exponent := by omega
  rw [toRat_widen le, toRat] at same
  have mantissa : x.mantissa = y.mantissa * tenTo (y.exponent - x.exponent).toNat :=
    Int.cast_injective (mul_right_cancel₀ (ten_zpow_pos _).ne' same)
  obtain ⟨k, places⟩ : ∃ k, (y.exponent - x.exponent).toNat = k + 1 :=
    ⟨(y.exponent - x.exponent).toNat - 1, by omega⟩
  have ten : (10 : Int) ∣ tenTo (k + 1) := Int.natCast_dvd_natCast.2 (ten_dvd_tenTo_succ k)
  rw [places] at mantissa
  exact not_dvd_of_canonical canonical nonzero (mantissa ▸ ten.mul_left _)

theorem eq_of_toRat_eq (first : x.Canonical) (second : y.Canonical) (same : x.toRat = y.toRat) :
    x = y := by
  by_cases zero : x.mantissa = 0
  · have other : y.mantissa = 0 := toRat_eq_zero_iff.1 (same ▸ toRat_eq_zero_iff.2 zero)
    have exponents := exponent_of_canonical first zero
    exact Decimal.ext (zero.trans other.symm)
      (exponents.trans (exponent_of_canonical second other).symm)
  · have other : y.mantissa ≠ 0 := fun zero' =>
      zero (toRat_eq_zero_iff.1 (same ▸ toRat_eq_zero_iff.2 zero'))
    have exponents : x.exponent = y.exponent :=
      Int.le_antisymm (exponent_le_of_toRat_eq second other same.symm)
        (exponent_le_of_toRat_eq first zero same)
    have mantissas : (x.mantissa : ℚ) = y.mantissa := by
      rw [toRat, toRat, exponents] at same
      exact mul_right_cancel₀ (ten_zpow_pos _).ne' same
    exact Decimal.ext (Int.cast_injective mantissas) exponents

/-- Equal decimals and equal values are the same thing in canonical form. -/
theorem eq_iff_toRat_eq (first : x.Canonical) (second : y.Canonical) :
    x = y ↔ x.toRat = y.toRat :=
  ⟨congrArg toRat, eq_of_toRat_eq first second⟩

end Decimal

end ScientificCalculator
