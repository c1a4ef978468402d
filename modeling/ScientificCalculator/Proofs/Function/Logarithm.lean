import ScientificCalculator.Proofs.Function.Exponential

/-!
The natural logarithm of a decimal. It is computed to a fixed place after the point, so its error
has a part in proportion to its value, from the rounding, and a part that does not shrink with it.
Close to one, where the logarithm is small, the second part leaves few correct digits.
-/

namespace ScientificCalculator.Decimal

open FixedPoint

variable {x : Decimal}

/-- The digits of a number before the point and after it, as one fixed-point number. -/
def significand (x : Decimal) : Nat := ((x.shift (-x.order)).toScaled workingDigits).toNat

theorem toScaled_shift (held : x.Held) (nonzero : x.mantissa ≠ 0) (high : x.order ≤ maxOrder) :
    (x.shift (-x.order)).toScaled workingDigits =
      x.mantissa * tenTo (76 - digitCount x.mantissa.natAbs) := by
  have digits := digitCount_pos x.mantissa.natAbs
  have few : digitCount x.mantissa.natAbs ≤ 60 := digitCount_of_canonical held.canonical
  have shifted : saturate (x.exponent + -x.order) = 1 - digitCount x.mantissa.natAbs := by
    rw [order_eq_firstPlace held nonzero high, firstPlace, saturate_of_mem]
    · omega
    · simp only [leastExponent]
      omega
    · simp only [greatestExponent]
      omega
  have places : saturate (1 - digitCount x.mantissa.natAbs + workingDigits) =
      (76 - digitCount x.mantissa.natAbs : Nat) := by
    simp only [saturate, leastExponent, greatestExponent, workingDigits, precision]
    omega
  have count : wrapped workingDigits = workingDigits := wrapped_natCast (by decide)
  rw [shift, if_neg (show ¬ x.IsZero from nonzero), toScaled, shifted, count]
  simp only [places]
  rw [if_pos (Int.natCast_nonneg _), Int.toNat_natCast]

/-- The significand is the number without its power of ten. -/
theorem significand_eq (held : x.Held) (pos : 0 < x.mantissa) (high : x.order ≤ maxOrder) :
    (x.significand : ℝ) = 10 ^ workingDigits * (x.toRat / 10 ^ x.order) := by
  have few : digitCount x.mantissa.natAbs ≤ 60 := digitCount_of_canonical held.canonical
  have natural : 0 ≤ x.mantissa * tenTo (76 - digitCount x.mantissa.natAbs) := by positivity
  have place : x.exponent + (workingDigits - x.order) =
      (76 - digitCount x.mantissa.natAbs : Nat) := by
    rw [order_eq_firstPlace held pos.ne' high, firstPlace]
    simp only [workingDigits, precision]
    omega
  rw [significand, toScaled_shift held pos.ne' high, ← Int.cast_natCast,
    Int.toNat_of_nonneg natural, Int.cast_mul, Int.cast_natCast, realCast_tenTo, ← zpow_natCast,
    ← place, toRat]
  push_cast
  rw [zpow_add₀ (by norm_num), zpow_sub₀ (by norm_num), zpow_natCast]
  ring

theorem quotient_bounds (held : x.Held) (pos : 0 < x.mantissa) (high : x.order ≤ maxOrder) :
    (1 : ℝ) ≤ x.toRat / 10 ^ x.order ∧ (x.toRat : ℝ) / 10 ^ x.order ≤ 10 := by
  have value : |x.toRat| = x.toRat := abs_of_pos (toRat_pos_iff.2 pos)
  have low := (Rat.cast_le (K := ℝ)).2 (ten_zpow_firstPlace_le pos.ne')
  have below := (Rat.cast_le (K := ℝ)).2 (lt_ten_zpow_firstPlace x).le
  rw [value, ← order_eq_firstPlace held pos.ne' high] at low below
  rw [zpow_add_one₀ (by norm_num)] at below
  push_cast at low below
  have power : (0 : ℝ) < 10 ^ x.order := by positivity
  constructor
  · rwa [le_div_iff₀ power, one_mul]
  · rwa [div_le_iff₀ power, mul_comm]

theorem significand_bounds (held : x.Held) (pos : 0 < x.mantissa) (high : x.order ≤ maxOrder) :
    tenTo workingDigits ≤ x.significand ∧ x.significand ≤ tenTo workingDigits * 10 := by
  obtain ⟨low, below⟩ := quotient_bounds held pos high
  have value := significand_eq held pos high
  have power : (0 : ℝ) ≤ 10 ^ workingDigits := by positivity
  rw [← realCast_tenTo] at value power
  constructor
  · have least := mul_le_mul_of_nonneg_left low power
    rw [← value, mul_one] at least
    exact_mod_cast least
  · have most := mul_le_mul_of_nonneg_left below power
    rw [← value] at most
    exact_mod_cast most

/-- The logarithm is that of the quotient by the power of ten, which lies from zero to `ln 10`, and
that of the power. -/
theorem log_toRat (held : x.Held) (pos : 0 < x.mantissa) (high : x.order ≤ maxOrder) :
    ∃ rest : ℝ, 0 ≤ rest ∧ rest ≤ Real.log 10 ∧
      exactLogarithm x.significand workingDigits = 10 ^ workingDigits * rest ∧
      Real.log x.toRat = rest + x.order * Real.log 10 := by
  obtain ⟨low, below⟩ := quotient_bounds held pos high
  have power : (0 : ℝ) < 10 ^ x.order := by positivity
  refine ⟨Real.log (x.toRat / 10 ^ x.order), Real.log_nonneg low,
    Real.log_le_log (by linarith) below, ?_, ?_⟩
  · rw [exactLogarithm, significand_eq held pos high, mul_div_cancel_left₀ _ (by positivity)]
  · have value : (x.toRat : ℝ) = x.toRat / 10 ^ x.order * 10 ^ x.order := by field_simp
    rw [← Real.log_zpow, ← Real.log_mul (by linarith) power.ne', ← value]

/-- The multiples of `ln 10` lose no more than the logarithm itself is worth. -/
theorem abs_order_le (order : Int) {rest : ℝ} (natural : 0 ≤ rest) (small : rest ≤ Real.log 10) :
    3 / 2 * |(order : ℝ)| ≤ 2 + |rest + order * Real.log 10| := by
  have ten := lt_log_ten
  rcases le_or_gt 0 order with positive | negative
  · have positive' : (0 : ℝ) ≤ order := by exact_mod_cast positive
    have product := mul_le_mul_of_nonneg_left ten.le positive'
    rw [abs_of_nonneg positive']
    linarith [le_abs_self (rest + order * Real.log 10)]
  · have next : (order : ℝ) + 1 ≤ 0 := by exact_mod_cast negative
    have product := mul_le_mul_of_nonpos_left ten.le next
    rw [abs_of_neg (by linarith)]
    linarith [neg_le_abs (rest + order * Real.log 10)]

theorem abs_scaledLogarithm_sub_le (held : x.Held) (pos : 0 < x.mantissa)
    (high : x.order ≤ maxOrder) :
    |(x.scaledLogarithm : ℝ) - 10 ^ workingDigits * Real.log x.toRat| ≤
      19394 + |Real.log x.toRat| := by
  obtain ⟨least, most⟩ := significand_bounds held pos high
  obtain ⟨rest, natural, small, scaled, split⟩ := log_toRat held pos high
  have series := abs_logarithm_sub_le least most
  have multiples := mul_le_mul_of_nonneg_left abs_workingTen_sub_le (abs_nonneg (x.order : ℝ))
  have lost := abs_order_le x.order natural small
  rw [scaled, realCast_workingDigits] at series
  rw [← abs_mul] at multiples
  have apart : (x.scaledLogarithm : ℝ) - 10 ^ workingDigits * (rest + x.order * Real.log 10) =
      (logarithm x.significand workingDigits - 10 ^ workingDigits * rest) +
        x.order * (logarithmTen workingDigits - 10 ^ workingDigits * Real.log 10) := by
    rw [scaledLogarithm, significand]
    push_cast
    ring
  rw [split, apart]
  refine (abs_add_le _ _).trans ((add_le_add series multiples).trans ?_)
  linarith

/-- The logarithm grows with the order by at most as much as `ln 10` for each place. -/
theorem abs_log_toRat_le (held : x.Held) (pos : 0 < x.mantissa) (high : x.order ≤ maxOrder) :
    |Real.log x.toRat| ≤ 2.8 * (|(x.order : ℝ)| + 1) := by
  obtain ⟨rest, natural, small, -, split⟩ := log_toRat held pos high
  have ten := log_ten_lt
  have positive : 0 < Real.log 10 := by linarith [lt_log_ten]
  calc |Real.log x.toRat|
      ≤ |rest| + |x.order * Real.log 10| := split ▸ abs_add_le _ _
    _ = rest + |(x.order : ℝ)| * Real.log 10 := by
        rw [abs_of_nonneg natural, abs_mul, abs_of_pos positive]
    _ ≤ 2.8 + |(x.order : ℝ)| * 2.8 :=
        add_le_add (small.trans ten.le) (mul_le_mul_of_nonneg_left ten.le (abs_nonneg _))
    _ = 2.8 * (|(x.order : ℝ)| + 1) := by ring

theorem abs_order_cast_le {n : Nat} (orders : x.order.natAbs ≤ n) : |(x.order : ℝ)| ≤ n := by
  rw [← Int.cast_abs, ← Int.natCast_natAbs]
  exact_mod_cast orders

/-- The rounding adds an error in proportion to the one that the place after the point leaves. -/
theorem abs_rounded_scaledLogarithm_sub_le (held : x.Held) (pos : 0 < x.mantissa)
    (orders : x.order.natAbs ≤ maxOrder) :
    |((ofScaled x.scaledLogarithm workingDigits).toRat : ℝ) - Real.log x.toRat| ≤
      6 / 10 ^ 60 * |Real.log x.toRat| + 2 / 10 ^ 71 := by
  have high : x.order ≤ maxOrder := by omega
  have scaled := abs_scaledLogarithm_sub_le held pos high
  have order : |(x.order : ℝ)| ≤ 10 ^ 15 := (abs_order_cast_le orders).trans (by norm_num [maxOrder])
  have size := abs_log_toRat_le held pos high
  refine (abs_ofScaled_sub_le (by decide) scaled (by linarith) (by linarith)).trans ?_
  rw [tenPow_workingDigits]
  linarith [abs_nonneg (Real.log x.toRat)]

/-- The logarithm of a positive number is accurate to sixty digits or to seventy places after the
point, whichever is less. Away from one the places do not matter. -/
theorem ln_accurate (held : x.Held) (pos : x.IsPositive) (orders : x.order.natAbs ≤ 10 ^ 15) :
    ∃ r : Decimal, x.ln = .ok r ∧
      |(r.toRat : ℝ) - Real.log x.toRat| ≤ 6 / 10 ^ 60 * |Real.log x.toRat| + 2 / 10 ^ 71 ∧
      (1 / 10 ^ 20 ≤ |Real.log x.toRat| →
        |(r.toRat : ℝ) - Real.log x.toRat| ≤ 1 / 10 ^ 50 * |Real.log x.toRat|) := by
  have accurate := abs_rounded_scaledLogarithm_sub_le held pos orders
  refine ⟨_, if_pos pos, accurate, fun far => accurate.trans ?_⟩
  linarith

theorem ln_accurate_greatest_order : ∃ r : Decimal, ln ⟨9, 1000000000000000⟩ = .ok r ∧
    |(r.toRat : ℝ) - Real.log (⟨9, 1000000000000000⟩ : Decimal).toRat| ≤
      6 / 10 ^ 60 * |Real.log (⟨9, 1000000000000000⟩ : Decimal).toRat| + 2 / 10 ^ 71 := by
  have held : Held ⟨9, 1000000000000000⟩ := ⟨by decide +kernel, by decide, by decide⟩
  obtain ⟨r, found, accurate, -⟩ := ln_accurate held (by decide) (by decide +kernel)
  exact ⟨r, found, accurate⟩

section PowersOfTen
variable {k : Int}

theorem held_tenPow (least : leastExponent ≤ k) (most : k ≤ greatestExponent) : (tenPow k).Held :=
  ⟨canonical_tenPow k, least, most⟩

theorem order_tenPow (least : leastExponent ≤ k) (most : k ≤ greatestExponent) :
    (tenPow k).order = k := by
  have first : (tenPow k).order = saturate (k + (0 : Nat)) := order_of_written 0 (by decide)
  rw [first, Nat.cast_zero, add_zero, saturate_of_mem least most]

theorem significand_tenPow (least : leastExponent ≤ k) (high : k ≤ maxOrder) :
    (tenPow k).significand = tenTo workingDigits := by
  have most : k ≤ greatestExponent := high.trans (by decide)
  have order : (tenPow k).order ≤ maxOrder := by rwa [order_tenPow least most]
  have mantissa : (tenPow k).mantissa = 1 := rfl
  have digits : digitCount (1 : Int).natAbs = 1 := digitCount_of_lt (by decide)
  have shifted := toScaled_shift (held_tenPow least most) (by rw [mantissa]; decide) order
  rw [mantissa, digits, Int.one_mul] at shifted
  rw [significand, shifted]
  rfl

/-- The logarithm of a power of ten has no part but the multiple of `ln 10`. -/
theorem scaledLogarithm_tenPow (least : leastExponent ≤ k) (high : k ≤ maxOrder) :
    (tenPow k).scaledLogarithm = k * logarithmTen workingDigits := by
  have none : logarithm (tenPow k).significand workingDigits = 0 := by
    rw [significand_tenPow least high, logarithm_tenTo]
  rw [scaledLogarithm]
  show logarithm (tenPow k).significand workingDigits + _ = _
  rw [none, order_tenPow least (high.trans (by decide)), Int.zero_add]

end PowersOfTen

section NearOne

/-- The least decimal above one. -/
def aboveOne : Decimal := ⟨10 ^ 59 + 1, -59⟩

theorem order_aboveOne : aboveOne.order = 0 := order_of_written 59 (by decide)

theorem significand_aboveOne : aboveOne.significand = 10 ^ 75 + 10 ^ 16 := by
  rw [significand, order_aboveOne]
  decide

theorem halfLogarithm_aboveOne :
    halfLogarithm aboveOne.significand workingDigits = 4999999999999999 := by
  rw [significand_aboveOne, halfLogarithm, oddTail]
  decide

theorem scaledLogarithm_aboveOne : aboveOne.scaledLogarithm = 9999999999999998 := by
  have near : NearOne workingDigits aboveOne.significand := by
    rw [significand_aboveOne]
    decide
  have doubled : logarithm aboveOne.significand workingDigits = 9999999999999998 := by
    rw [logarithm, rootsUntilNear, if_pos near]
    simp only [halfLogarithm_aboveOne]
    decide
  rw [scaledLogarithm]
  show logarithm aboveOne.significand workingDigits + _ = _
  rw [doubled, order_aboveOne, Int.zero_mul, Int.add_zero]

theorem log_aboveOne_bounds : 1 / 10 ^ 59 - 1 / 10 ^ 118 ≤ Real.log aboveOne.toRat ∧
    Real.log aboveOne.toRat ≤ 1 / 10 ^ 59 := by
  have value : (aboveOne.toRat : ℝ) = 1 + 1 / 10 ^ 59 := by
    rw [aboveOne, toRat]
    push_cast
    norm_num
  have low := Real.one_sub_inv_le_log_of_pos (by norm_num : (0 : ℝ) < 1 + 1 / 10 ^ 59)
  have high := Real.log_le_sub_one_of_pos (by norm_num : (0 : ℝ) < 1 + 1 / 10 ^ 59)
  rw [value]
  norm_num at low high ⊢
  constructor <;> linarith

/-- The logarithm of the least decimal above one has only fifteen correct digits. -/
theorem ln_inaccurate_above_one : aboveOne.Held ∧ aboveOne.IsPositive ∧
    aboveOne.order.natAbs ≤ 10 ^ 15 ∧ aboveOne.ln = .ok ⟨9999999999999998, -75⟩ ∧
    1 / 10 ^ 50 * |Real.log aboveOne.toRat| <
      |((⟨9999999999999998, -75⟩ : Decimal).toRat : ℝ) - Real.log aboveOne.toRat| := by
  have computed : aboveOne.ln = .ok ⟨9999999999999998, -75⟩ := by
    rw [ln, if_pos (by decide), scaledLogarithm_aboveOne]
    decide +kernel
  refine ⟨⟨by decide +kernel, by decide, by decide⟩, by decide, by decide +kernel, computed, ?_⟩
  obtain ⟨low, high⟩ := log_aboveOne_bounds
  have result : ((⟨9999999999999998, -75⟩ : Decimal).toRat : ℝ) = 9999999999999998 / 10 ^ 75 := by
    rw [toRat]
    push_cast
    norm_num
  rw [result, abs_sub_comm]
  generalize Real.log aboveOne.toRat = logarithm at low high ⊢
  rw [abs_of_pos (by norm_num at low ⊢; linarith), abs_of_pos (by norm_num at low ⊢; linarith)]
  norm_num at low high ⊢
  linarith

end NearOne

end ScientificCalculator.Decimal
