import ScientificCalculator.Proofs.Decimal.Order
import ScientificCalculator.Proofs.Decimal.Scaled

/-!
Rounding keeps the order of numbers, also across a power of ten, where the last place changes. A
number that differs from a decimal by far less than a unit of its last place is rounded to it, and
so no number is rounded past a decimal that it exceeds by so little.
-/

namespace ScientificCalculator

section Rational
variable {p q : ℚ}

/-- A number below a power of ten is at most rounded up to that, which is a multiple of its last
place. -/
theorem roundMagnitude_le_ten_zpow (pos : 0 < q) {k : Int} (below : q < 10 ^ k) :
    roundMagnitude q ≤ 10 ^ k := by
  have unit := ten_zpow_pos (lastPlace q)
  have order : Int.log 10 q < k :=
    (Int.lt_zpow_iff_log_lt (by decide) pos).1 (by exact_mod_cast below)
  have place : lastPlace q ≤ k := by
    rw [lastPlace, precision]
    omega
  have multiple : (10 : ℚ) ^ k = ((10 ^ (k - lastPlace q).toNat : Int) : ℚ) * 10 ^ lastPlace q := by
    push_cast
    exact ten_zpow_eq_mul _ (by omega)
  rw [roundMagnitude, multiple]
  apply mul_le_mul_of_nonneg_right _ unit.le
  rw [multiple, ← div_lt_iff₀ unit] at below
  have less : ⌊q / 10 ^ lastPlace q + 1 / 2⌋ < 10 ^ (k - lastPlace q).toNat + 1 := by
    rw [Int.floor_lt]
    push_cast at below ⊢
    linarith
  exact_mod_cast Int.le_of_lt_add_one less

/-- A number is not rounded below its first place. -/
theorem ten_zpow_log_le_roundMagnitude (pos : 0 < q) : 10 ^ Int.log 10 q ≤ roundMagnitude q := by
  have unit := ten_zpow_pos (lastPlace q)
  have low : (10 : ℚ) ^ Int.log 10 q ≤ q := by
    exact_mod_cast Int.zpow_log_le_self (b := 10) (by decide) pos
  have multiple : (10 : ℚ) ^ Int.log 10 q = ((10 ^ 59 : Int) : ℚ) * 10 ^ lastPlace q := by
    rw [Int.cast_pow, Int.cast_ofNat]
    apply ten_zpow_eq_mul
    rw [lastPlace, precision]
    omega
  rw [multiple, ← le_div_iff₀ unit] at low
  rw [roundMagnitude, multiple]
  apply mul_le_mul_of_nonneg_right _ unit.le
  have least : 10 ^ 59 ≤ ⌊q / 10 ^ lastPlace q + 1 / 2⌋ := by
    rw [Int.le_floor]
    linarith
  exact_mod_cast least

theorem roundMagnitude_mono (pos : 0 < p) (le : p ≤ q) : roundMagnitude p ≤ roundMagnitude q := by
  have pos' : 0 < q := pos.trans_le le
  rcases (Int.log_mono_right (b := 10) pos le).lt_or_eq with lower | same
  · -- a power of ten lies between the numbers
    have below : p < 10 ^ (Int.log 10 p + 1) := by
      exact_mod_cast Int.lt_zpow_succ_log_self (b := 10) (by decide) p
    calc roundMagnitude p
        ≤ 10 ^ Int.log 10 q := roundMagnitude_le_ten_zpow pos
          (below.trans_le (zpow_le_zpow_right₀ (by norm_num) lower))
      _ ≤ roundMagnitude q := ten_zpow_log_le_roundMagnitude pos'
  · have unit := ten_zpow_pos (lastPlace q)
    have places : lastPlace p = lastPlace q := by rw [lastPlace, lastPlace, same]
    rw [roundMagnitude, roundMagnitude, places]
    apply mul_le_mul_of_nonneg_right _ unit.le
    have scaled := div_le_div_of_nonneg_right le unit.le
    exact_mod_cast Int.floor_mono (by linarith)

theorem roundSignificant_mono (le : p ≤ q) : roundSignificant p ≤ roundSignificant q := by
  rcases lt_or_ge 0 p with pos | nonpos
  · rw [roundSignificant_of_pos pos, roundSignificant_of_pos (pos.trans_le le)]
    exact roundMagnitude_mono pos le
  · rcases lt_or_ge q 0 with neg | nonneg
    · have opposite := roundMagnitude_mono (neg_pos.2 neg) (neg_le_neg le)
      rw [← roundSignificant_of_pos (neg_pos.2 neg), ← roundSignificant_of_pos (by linarith),
        roundSignificant_neg, roundSignificant_neg] at opposite
      exact neg_le_neg_iff.1 opposite
    · have low : roundSignificant p ≤ 0 := by
        rwa [← sign_nonpos_iff, sign_roundSignificant, sign_nonpos_iff]
      have high : 0 ≤ roundSignificant q := by
        rwa [← sign_nonneg_iff, sign_roundSignificant, sign_nonneg_iff]
      exact low.trans high

end Rational

namespace Decimal
variable {x : Decimal} {q : ℚ} {n : Int} {digits : Nat}

/-- A number is not rounded past a decimal, even if it exceeds that by a little. -/
theorem abs_roundSignificant_le (canonical : x.Canonical) (nonzero : x.mantissa ≠ 0)
    (near : |q| ≤ x.toRat + 10 ^ (x.firstPlace - 1 - precision)) :
    |roundSignificant q| ≤ x.toRat := by
  have margin := ten_zpow_pos (x.firstPlace - 1 - precision)
  have rounded := roundSignificant_add_small canonical nonzero (abs_of_pos margin).le
  obtain ⟨low, high⟩ := abs_le.1 near
  have upper := roundSignificant_mono high
  have lower := roundSignificant_mono low
  rw [roundSignificant_neg] at lower
  rw [rounded] at upper lower
  exact abs_le.2 ⟨lower, upper⟩

/-- A fixed-point number close to a decimal makes that decimal. -/
theorem ofScaled_eq_of_near (held : x.Held) (nonzero : x.mantissa ≠ 0)
    (countable : digits ≤ greatestExponent) (near : |(n : ℚ) - 10 ^ digits * x.toRat| ≤
      10 ^ digits * 10 ^ (x.firstPlace - 1 - precision)) : ofScaled n digits = x := by
  have power : (0 : ℚ) < 10 ^ digits := by positivity
  have unscaled : (n : ℚ) * 10 ^ (-digits : Int) - x.toRat =
      (n - 10 ^ digits * x.toRat) / 10 ^ digits := by
    rw [zpow_neg, zpow_natCast]
    field_simp
  have near' : |(n : ℚ) * 10 ^ (-digits : Int) - x.toRat| ≤
      10 ^ (x.firstPlace - 1 - precision) := by
    rwa [unscaled, abs_div, abs_of_pos power, div_le_iff₀' power]
  have rounded := roundSignificant_add_small held.canonical nonzero near'
  rw [add_sub_cancel] at rounded
  rw [ofScaled_eq n countable]
  exact ofParts_eq_of_toRat_eq held rounded.symm

theorem toRat_ofScaled (long : digits ≤ 1000) (length : digitCount n.natAbs ≤ 1000) :
    (ofScaled n digits).toRat = roundSignificant (n * 10 ^ (-digits : Int)) := by
  have least : leastExponent = -9223372036854775808 := rfl
  have greatest : greatestExponent = 9223372036854775807 := rfl
  have places : precision = 60 := rfl
  rw [ofScaled_eq n (by omega)]
  exact toRat_ofParts (by omega) (by omega)

end Decimal

end ScientificCalculator
