import ScientificCalculator.Function.Exponential
import ScientificCalculator.Proofs.Decimal.Figures
import ScientificCalculator.Proofs.FixedPoint.Truncation

/-!
Decimals as real numbers, and the way to fixed point and back. The fixed-point number of a decimal
is at most half a unit away, and a decimal made from a fixed-point number is at most half a unit of
the last kept digit away, in proportion half of `10 ^ -59`.
-/

namespace ScientificCalculator

theorem realCast_workingDigits : ((workingDigits : Nat) : ℝ) = 75 := by
  norm_num [workingDigits, precision]

theorem tenPow_workingDigits : (10 : ℝ) ^ workingDigits = 10 ^ 75 := rfl

section Rounding

theorem abs_roundDiv_sub_le (n : Int) {d : Nat} (pos : 0 < d) :
    |(roundDiv n d : ℚ) - n / d| ≤ 1 / 2 := by
  have nearest := abs_sub_round ((n.natAbs : ℚ) / d)
  rw [round_natCast_div pos, abs_sub_comm, Int.cast_natCast] at nearest
  rcases Int.natAbs_eq n with same | opposite
  · rw [same, roundDiv_natCast, Int.cast_natCast, Int.cast_natCast]
    exact nearest
  · rw [opposite, roundDiv_neg, roundDiv_natCast, Int.cast_neg, Int.cast_neg, Int.cast_natCast,
      Int.cast_natCast, neg_div, neg_sub_neg, abs_sub_comm]
    exact nearest

theorem roundDiv_of_small {n : Int} {d : Nat} (small : 2 * n.natAbs < d) : roundDiv n d = 0 := by
  rw [roundDiv, roundDivNat, Nat.div_eq_of_lt (by omega), Int.natCast_zero, mul_zero]

theorem abs_roundSignificant_sub_le (q : ℚ) :
    |roundSignificant q - q| ≤ |q| / (2 * 10 ^ 59) := by
  have positive {p : ℚ} (pos : 0 < p) : |roundSignificant p - p| ≤ p / (2 * 10 ^ 59) := by
    have low : 10 ^ Int.log 10 p ≤ p := by
      exact_mod_cast Int.zpow_log_le_self (b := 10) (by decide) pos
    have high : p < 10 ^ (Int.log 10 p + 1) := by
      exact_mod_cast Int.lt_zpow_succ_log_self (b := 10) (by decide) p
    have half : |roundSignificant p - p| ≤ _ := abs_roundTo_sub_le_half precision low high
    have unit : (10 : ℚ) ^ Int.log 10 p = 10 ^ 59 * 10 ^ (Int.log 10 p + 1 - precision) :=
      ten_zpow_eq_mul 59 (by simp [precision]; omega)
    rw [unit] at low
    rw [le_div_iff₀ (by positivity)]
    linarith
  rcases lt_trichotomy q 0 with negative | rfl | pos
  · have opposite := positive (neg_pos.2 negative)
    rw [roundSignificant_neg, neg_sub_neg, abs_sub_comm] at opposite
    rwa [abs_of_neg negative]
  · simp [roundSignificant_zero]
  · rw [abs_of_pos pos]
    exact positive pos

end Rounding

namespace Decimal
variable {x : Decimal} {m e : Int}

theorem fullExponent_le (nonzero : m ≠ 0) :
    fullExponent m e ≤ e + digitCount m.natAbs + precision := by
  have pos := roundedMagnitude_pos (Int.natAbs_pos.2 nonzero)
  have divides := Nat.le_of_dvd pos (tenTo_trailingZeros_dvd (roundedMagnitude m.natAbs))
  have zeros : tenTo (trailingZeros (roundedMagnitude m.natAbs)) < tenTo (precision + 1) :=
    Nat.lt_of_le_of_lt (divides.trans (roundedMagnitude_le _)) (by decide)
  have few := lt_of_tenTo_lt zeros
  rw [fullExponent]
  omega

/-- The decimal of some parts is their value rounded, unless its exponent stops at an end of the
range. -/
theorem toRat_ofParts_of_fullExponent (least : leastExponent ≤ e)
    (most : fullExponent m e ≤ greatestExponent) :
    (ofParts m e).toRat = roundSignificant (m * 10 ^ e) := by
  by_cases zero : m = 0
  · rw [zero, ofParts_zero, toRat_zero, Int.cast_zero, zero_mul, roundSignificant_zero]
  · rw [toRat, exponent_ofParts zero, saturate_of_mem (least.trans (le_fullExponent m e)) most,
      mantissa_mul_ofParts zero]

/-- Away from the ends of the exponent range, the decimal of some parts is their value rounded. -/
theorem toRat_ofParts (least : leastExponent ≤ e)
    (most : e + digitCount m.natAbs + precision ≤ greatestExponent) :
    (ofParts m e).toRat = roundSignificant (m * 10 ^ e) := by
  by_cases zero : m = 0
  · rw [zero, ofParts_zero, toRat_zero, Int.cast_zero, zero_mul, roundSignificant_zero]
  · exact toRat_ofParts_of_fullExponent least ((fullExponent_le zero).trans most)

/-- A mantissa with few enough digits is not rounded. -/
theorem roundSignificant_parts_of_short {n : Nat} (short : digitCount n ≤ precision) (e : Int) :
    roundSignificant (n * 10 ^ e) = n * 10 ^ e := by
  rcases Nat.eq_zero_or_pos n with rfl | pos
  · rw [Nat.cast_zero, zero_mul, roundSignificant_zero]
  · have value : (0 : ℚ) < n * 10 ^ e := mul_pos (by exact_mod_cast pos) (ten_zpow_pos e)
    have high : (n : ℚ) * 10 ^ e < 10 ^ ((digitCount n : Int) - 1 + e + 1) := by
      rw [show (digitCount n : Int) - 1 + e + 1 = digitCount n + e by omega]
      exact parts_lt_ten_zpow n e
    rw [roundSignificant_of_pos value]
    exact roundMagnitude_of_multiple (ten_zpow_le_parts pos e) high (parts_eq_multiple short e)

/-- Parts that are short enough are not rounded. -/
theorem toRat_ofParts_of_short {n : Nat} (short : digitCount n ≤ precision)
    (least : leastExponent ≤ e) (most : e + 2 * precision ≤ greatestExponent) :
    (ofParts n e).toRat = n * 10 ^ e := by
  have full : e + digitCount (n : Int).natAbs + precision ≤ greatestExponent := by
    rw [Int.natAbs_natCast]
    omega
  rw [toRat_ofParts least full, Int.cast_natCast, roundSignificant_parts_of_short short]

/-- An integer of at most sixty digits is a decimal without rounding. -/
theorem toRat_ofInt {n : Int} (short : digitCount n.natAbs ≤ precision) : (ofInt n).toRat = n := by
  have magnitude : (ofParts n.natAbs 0).toRat = n.natAbs := by
    rw [toRat_ofParts_of_short short (by decide) (by decide), zpow_zero, mul_one]
  rcases Int.natAbs_eq n with same | opposite
  · rw [ofInt, same, magnitude, Int.cast_natCast]
  · rw [ofInt, opposite, ofParts_neg, toRat_neg, magnitude, Int.cast_neg, Int.cast_natCast]

theorem abs_toRat_ofParts_sub_le (least : leastExponent ≤ e)
    (most : e + digitCount m.natAbs + precision ≤ greatestExponent) :
    |(ofParts m e).toRat - m * 10 ^ e| ≤ |(m : ℚ) * 10 ^ e| / (2 * 10 ^ 59) := by
  rw [toRat_ofParts least most]
  exact abs_roundSignificant_sub_le _

/-- The order of a nonzero decimal is its first place, unless that lies beyond the exponents. -/
theorem firstPlace_le_of_order_le (nonzero : x.mantissa ≠ 0) {n : Int} (low : x.order ≤ n)
    (within : n < greatestExponent) : x.firstPlace ≤ n := by
  rw [order_eq nonzero, leadingOrder, saturate] at low
  rw [firstPlace]
  omega

theorem order_eq_firstPlace (held : x.Held) (nonzero : x.mantissa ≠ 0) (high : x.order ≤ maxOrder) :
    x.order = x.firstPlace := by
  have place := firstPlace_le_of_order_le nonzero high (by decide)
  have range : (maxOrder : Int) ≤ greatestExponent := by decide
  rw [order_eq nonzero, leadingOrder_eq held (place.trans range)]

theorem firstPlace_lt_of_abs_lt (nonzero : x.mantissa ≠ 0) {n : Int} (small : |x.toRat| < 10 ^ n) :
    x.firstPlace < n :=
  (zpow_lt_zpow_iff_right₀ (by norm_num)).1 ((ten_zpow_firstPlace_le nonzero).trans_lt small)

theorem le_firstPlace_of_le_abs {n : Int} (large : 10 ^ n ≤ |x.toRat|) : n ≤ x.firstPlace :=
  Int.le_of_lt_add_one
    ((zpow_lt_zpow_iff_right₀ (by norm_num)).1 (large.trans_lt (lt_ten_zpow_firstPlace x)))

theorem order_lt_of_abs_lt (held : x.Held) {n : Int} (pos : 0 < n) (within : n ≤ greatestExponent)
    (small : |x.toRat| < 10 ^ n) : x.order < n := by
  by_cases zero : x.IsZero
  · rw [order, order?, if_pos zero]
    exact pos
  · have place := firstPlace_lt_of_abs_lt zero small
    rw [order_eq zero, leadingOrder_eq held (by omega)]
    exact place

theorem exponent_le_firstPlace (x : Decimal) : x.exponent ≤ x.firstPlace := by
  have digits := digitCount_pos x.mantissa.natAbs
  rw [firstPlace]
  omega

theorem exponent_le_of_order_le (held : x.Held) {n : Int} (natural : 0 ≤ n) (high : x.order ≤ n)
    (within : n < greatestExponent) : x.exponent ≤ n := by
  by_cases zero : x.mantissa = 0
  · rwa [exponent_of_canonical held.canonical zero]
  · exact (exponent_le_firstPlace x).trans (firstPlace_le_of_order_le zero high within)

theorem abs_toRat_le (held : x.Held) (high : x.order ≤ maxOrder) :
    |x.toRat| ≤ 10 ^ (x.order + 1).toNat := by
  by_cases zero : x.mantissa = 0
  · rw [toRat_eq_zero_iff.2 zero, abs_zero]
    positivity
  · have below := (lt_ten_zpow_firstPlace x).le
    rw [← order_eq_firstPlace held zero high] at below
    refine below.trans ?_
    rw [← zpow_natCast]
    exact zpow_le_zpow_right₀ (by norm_num) (Int.self_le_toNat _)

/-- A decimal at some digits after the point, where it has that many places. -/
theorem toRat_mul_pow (x : Decimal) (digits : Nat) :
    x.toRat * 10 ^ digits = x.mantissa * 10 ^ (x.exponent + digits) := by
  rw [toRat, mul_assoc, ← zpow_natCast, ← zpow_add₀ (by norm_num)]

/-- The fixed-point number is a quotient rounded to an integer, also where it is zero without a
division. -/
theorem toScaled_eq_roundDiv (held : x.Held) {digits : Nat} (countable : digits ≤ greatestExponent)
    (within : x.exponent + digits ≤ greatestExponent) :
    ∃ (n : Int) (d : Nat), 0 < d ∧ x.toRat * 10 ^ digits = n / d ∧
      x.toScaled digits = roundDiv n d := by
  have places : saturate (x.exponent + digits) = x.exponent + digits :=
    saturate_of_mem (held.least.trans (by omega)) within
  rw [toScaled, toRat_mul_pow, wrapped_natCast countable]
  simp only [places]
  generalize x.exponent + digits = p
  split
  · obtain ⟨n, rfl⟩ := Int.eq_ofNat_of_zero_le ‹0 ≤ p›
    refine ⟨x.mantissa * tenTo n, 1, Nat.one_pos, ?_, ?_⟩
    · rw [zpow_natCast, Int.cast_mul, Int.cast_natCast, natCast_tenTo, Nat.cast_one, div_one]
    · rw [Int.toNat_natCast, roundDiv_one]
  · obtain ⟨n, rfl⟩ : ∃ n : Nat, p = -n := ⟨p.natAbs, by omega⟩
    rw [Int.natAbs_neg, Int.natAbs_natCast]
    refine ⟨x.mantissa, tenTo n, tenTo_pos n, ?_, ?_⟩
    · rw [zpow_neg, zpow_natCast, natCast_tenTo, div_eq_mul_inv]
    · split
      · -- the number is less than a tenth of a unit
        have below := lt_tenTo_digitCount x.mantissa.natAbs
        have wider := tenTo_le_tenTo (show digitCount x.mantissa.natAbs + 1 ≤ n by omega)
        rw [tenTo_succ] at wider
        exact (roundDiv_of_small (by omega)).symm
      · rfl

theorem abs_toScaled_sub_le (held : x.Held) {digits : Nat} (countable : digits ≤ greatestExponent)
    (within : x.exponent + digits ≤ greatestExponent) :
    |(x.toScaled digits : ℚ) - x.toRat * 10 ^ digits| ≤ 1 / 2 := by
  obtain ⟨n, d, pos, quotient, rounded⟩ := toScaled_eq_roundDiv held countable within
  rw [quotient, rounded]
  exact abs_roundDiv_sub_le n pos

theorem abs_toScaled_sub_real_le (held : x.Held) {digits : Nat}
    (countable : digits ≤ greatestExponent) (within : x.exponent + digits ≤ greatestExponent) :
    |(x.toScaled digits : ℝ) - 10 ^ digits * (x.toRat : ℝ)| ≤ 1 / 2 := by
  have near := (Rat.cast_le (K := ℝ)).2 (abs_toScaled_sub_le held countable within)
  push_cast at near
  rwa [mul_comm (10 ^ digits)]

theorem within_ofParts (least : leastExponent ≤ e)
    (most : e + digitCount m.natAbs + precision ≤ greatestExponent) :
    Within (1 / (2 * 10 ^ 59)) (ofParts m e).toRat (m * 10 ^ e) := by
  have near := (Rat.cast_le (K := ℝ)).2 (abs_toRat_ofParts_sub_le least most)
  push_cast at near
  rwa [Within, one_div, ← div_eq_inv_mul]

theorem digitCount_natAbs_le {count : Nat} (pos : 0 < count) (below : |(m : ℝ)| < 10 ^ count) :
    digitCount m.natAbs ≤ count := by
  apply digitCount_le pos
  rw [← Int.cast_abs, ← Int.natCast_natAbs, ← realCast_tenTo] at below
  exact_mod_cast below

/-- A fixed-point number that is a few units away from a value makes a decimal that is as accurate,
but for the rounding. -/
theorem abs_ofScaled_sub_le {value units : ℝ} {digits : Nat} (long : digits ≤ 1000)
    (near : |(m : ℝ) - 10 ^ digits * value| ≤ units) (size : |value| ≤ 10 ^ 20)
    (few : units ≤ 10 ^ 20) :
    |((ofScaled m digits).toRat : ℝ) - value| ≤
      |value| / (2 * 10 ^ 59) + 1.01 * (units / 10 ^ digits) := by
  have power : (1 : ℝ) ≤ 10 ^ digits := one_le_pow₀ (by norm_num)
  have length : digitCount m.natAbs ≤ digits + 21 := by
    apply digitCount_natAbs_le (by omega)
    have large := abs_le_of_near near size
    rw [pow_add]
    linarith
  have rounded : Within (1 / (2 * 10 ^ 59)) (ofScaled m digits).toRat
      (m * 10 ^ (-digits : Int)) := by
    have least : leastExponent = -9223372036854775808 := rfl
    have greatest : greatestExponent = 9223372036854775807 := rfl
    have places : precision = 60 := rfl
    rw [ofScaled_eq m (by omega)]
    exact within_ofParts (by omega) (by omega)
  have unscaled : |(m : ℝ) * 10 ^ (-digits : Int) - value| ≤ units / 10 ^ digits := by
    have quotient : (m : ℝ) * 10 ^ (-digits : Int) - value =
        (m - 10 ^ digits * value) / 10 ^ digits := by
      rw [zpow_neg, zpow_natCast]
      field_simp
    rw [quotient, abs_div, abs_of_pos (by linarith : (0 : ℝ) < 10 ^ digits)]
    exact div_le_div_of_nonneg_right near (by linarith)
  rw [Within] at rounded
  generalize (m : ℝ) * 10 ^ (-digits : Int) = exactly at rounded unscaled
  have triangle := abs_sub_abs_le_abs_sub exactly value
  refine (abs_sub_le _ _ _).trans ((add_le_add rounded unscaled).trans ?_)
  linarith [abs_nonneg (exactly - value)]

end Decimal

end ScientificCalculator
