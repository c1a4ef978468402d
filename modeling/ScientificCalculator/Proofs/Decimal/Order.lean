import ScientificCalculator.Proofs.Decimal.Arithmetic

/-!
The order of decimals. Rounding keeps the sign of a sum, so the sign of a rounded difference tells
which of two canonical decimals is the greater one.
-/

namespace ScientificCalculator

section Rational
variable {q : ℚ}

theorem roundMagnitude_pos (pos : 0 < q) : 0 < roundMagnitude q := by
  have unit := ten_zpow_pos (lastPlace q)
  have low : 10 ^ Int.log 10 q ≤ q := by exact_mod_cast Int.zpow_log_le_self (b := 10) (by decide) pos
  have place : lastPlace q ≤ Int.log 10 q := by
    rw [lastPlace, precision]
    omega
  have whole : 1 ≤ q / 10 ^ lastPlace q := by
    rw [le_div_iff₀ unit, one_mul]
    exact (zpow_le_zpow_right₀ (by norm_num) place).trans low
  have least : (1 : Int) ≤ ⌊q / 10 ^ lastPlace q + 1 / 2⌋ := by
    rw [Int.le_floor, Int.cast_one]
    linarith
  have least' : (1 : ℚ) ≤ ⌊q / 10 ^ lastPlace q + 1 / 2⌋ := by exact_mod_cast least
  exact mul_pos (by linarith) unit

theorem sign_roundSignificant (q : ℚ) : SignType.sign (roundSignificant q) = SignType.sign q := by
  rcases lt_trichotomy q 0 with negative | rfl | positive
  · have magnitude := roundMagnitude_pos (neg_pos.2 negative)
    rw [← neg_neg q, roundSignificant_neg, Left.sign_neg, Left.sign_neg,
      roundSignificant_of_pos (neg_pos.2 negative), sign_pos magnitude,
      sign_pos (neg_pos.2 negative)]
  · rw [roundSignificant_zero]
  · rw [roundSignificant_of_pos positive, sign_pos positive, sign_pos (roundMagnitude_pos positive)]

end Rational

namespace Decimal
variable {x y : Decimal}

theorem sign_mul_ten_zpow (m : ℚ) (e : Int) : SignType.sign (m * 10 ^ e) = SignType.sign m := by
  rw [sign_mul, sign_pos (ten_zpow_pos e), mul_one]

theorem sign_toRat (x : Decimal) : SignType.sign x.toRat = SignType.sign (x.mantissa : ℚ) :=
  sign_mul_ten_zpow _ _

theorem toRat_neg_iff : x.toRat < 0 ↔ x.mantissa < 0 := by
  rw [← sign_eq_neg_one_iff, sign_toRat, sign_eq_neg_one_iff, Int.cast_lt_zero]

theorem toRat_pos_iff : 0 < x.toRat ↔ 0 < x.mantissa := by
  rw [← sign_eq_one_iff, sign_toRat, sign_eq_one_iff, Int.cast_pos]

theorem sign_mantissa_ofParts (m e : Int) :
    SignType.sign ((ofParts m e).mantissa : ℚ) = SignType.sign (m : ℚ) := by
  by_cases zero : m = 0
  · rw [zero, ofParts_zero]
    rfl
  · rw [← sign_mul_ten_zpow _ (fullExponent m e), mantissa_mul_ofParts zero, sign_roundSignificant,
      sign_mul_ten_zpow]

theorem sign_mantissa_alignedSum (x y : Decimal) :
    SignType.sign ((alignedSum x y).mantissa : ℚ) = SignType.sign (x.toRat + y.toRat) := by
  rw [alignedSum, sign_mantissa_ofParts, toRat_widen (min_le_left x.exponent y.exponent),
    toRat_widen (min_le_right x.exponent y.exponent), ← add_mul, ← Int.cast_add, sign_mul_ten_zpow]

theorem sign_mantissa_add (first : x.Canonical) (second : y.Canonical) :
    SignType.sign ((x + y).mantissa : ℚ) = SignType.sign (x.toRat + y.toRat) := by
  rcases add_cases first second with aligned | ⟨kept, rounded⟩ | ⟨kept, rounded⟩
  · rw [aligned, sign_mantissa_alignedSum]
  · rw [← sign_roundSignificant (x.toRat + y.toRat), kept, rounded, sign_toRat]
  · rw [← sign_roundSignificant (x.toRat + y.toRat), kept, rounded, sign_toRat]

theorem sign_mantissa_sub (first : x.Canonical) (second : y.Canonical) :
    SignType.sign ((x - y).mantissa : ℚ) = SignType.sign (x.toRat - y.toRat) := by
  rw [sub_eq_add_neg, ← toRat_neg]
  exact sign_mantissa_add first (canonical_neg second)

theorem le_iff_toRat_le (first : x.Canonical) (second : y.Canonical) :
    x ≤ y ↔ x.toRat ≤ y.toRat := by
  have order : x ≤ y ↔ ((x - y).mantissa : ℚ) ≤ 0 := by
    show compare (x - y).mantissa 0 ≠ .gt ↔ _
    rw [Ne, compare_gt_iff_gt, not_lt, Int.cast_nonpos]
  rw [order, ← sign_nonpos_iff, sign_mantissa_sub first second, sign_nonpos_iff, sub_nonpos]

theorem lt_iff_toRat_lt (first : x.Canonical) (second : y.Canonical) :
    x < y ↔ x.toRat < y.toRat := by
  have order : x < y ↔ ((x - y).mantissa : ℚ) < 0 := by
    show compare (x - y).mantissa 0 = .lt ↔ _
    rw [compare_lt_iff_lt, Int.cast_lt_zero]
  rw [order, ← sign_eq_neg_one_iff, sign_mantissa_sub first second, sign_eq_neg_one_iff, sub_neg]

theorem toRat_abs (x : Decimal) : x.abs.toRat = |x.toRat| := by
  rw [abs_toRat, toRat, Decimal.abs, Int.cast_natCast]

theorem firstPlace_abs (x : Decimal) : x.abs.firstPlace = x.firstPlace := by
  rw [firstPlace, firstPlace, Decimal.abs, Int.natAbs_natCast]

theorem held_abs (held : x.Held) : x.abs.Held :=
  ⟨canonical_abs held.canonical, held.least, held.greatest⟩

theorem toRat_one : one.toRat = 1 := by
  show ((1 : Int) : ℚ) * 10 ^ (0 : Int) = 1
  norm_num

theorem firstPlace_one : one.firstPlace = 0 := by
  have digits : digitCount one.mantissa.natAbs = 1 := digitCount_of_lt (by decide)
  rw [firstPlace, digits]
  rfl

/-- A positive number is at least one exactly if its first digit stands before the point. -/
theorem one_le_iff (canonical : x.Canonical) (pos : 0 < x.mantissa) :
    one ≤ x ↔ 0 ≤ x.firstPlace := by
  have value : |x.toRat| = x.toRat := abs_of_pos (toRat_pos_iff.2 pos)
  have low := ten_zpow_firstPlace_le pos.ne'
  have high := lt_ten_zpow_firstPlace x
  rw [value] at low high
  rw [le_iff_toRat_le canonical_one canonical, toRat_one]
  constructor
  · intro least
    have power : (10 : ℚ) ^ (0 : Int) < 10 ^ (x.firstPlace + 1) := by
      rw [zpow_zero]
      exact least.trans_lt high
    have place := (zpow_lt_zpow_iff_right₀ (by norm_num)).1 power
    omega
  · intro place
    exact (one_le_zpow₀ (by norm_num) place).trans low

end Decimal

end ScientificCalculator
