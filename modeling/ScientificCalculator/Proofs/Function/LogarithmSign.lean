import ScientificCalculator.Proofs.Function.Logarithm

/-!
The sign of a logarithm. Below one the logarithm is the difference of two that are almost equal, and
its error does not shrink with it. But a decimal other than one is at least a unit of its sixtieth
place away from one, which is worth far more than all the units that roots, series and the multiple
of `ln 10` lose. So the sign is never wrong, and the logarithm of one is computed exactly.
-/

namespace ScientificCalculator.Decimal

open FixedPoint

variable {x l : Decimal}

section Gap

/-- A decimal other than one differs from one in its sixtieth place at the latest. -/
theorem le_abs_toRat_sub_one (canonical : x.Canonical) (other : x.toRat ≠ 1) :
    1 / 10 ^ 60 ≤ |x.toRat - 1| := by
  rcases le_or_gt (-60) x.exponent with fine | tiny
  · -- in units of the sixtieth place both numbers are whole
    obtain ⟨k, exponent⟩ := Int.eq_ofNat_of_zero_le (by omega : 0 ≤ x.exponent + 60)
    have whole : (x.toRat - 1) * 10 ^ 60 = (x.mantissa * 10 ^ k - 10 ^ 60 : Int) := by
      have shifted : x.exponent = k - (60 : Nat) := by omega
      rw [toRat, shifted, zpow_sub₀ (by norm_num), zpow_natCast, zpow_natCast]
      push_cast
      field_simp
      norm_num
    have apart : x.mantissa * 10 ^ k - 10 ^ 60 ≠ 0 := by
      intro none
      rw [none, Int.cast_zero, mul_eq_zero, sub_eq_zero] at whole
      exact other (whole.resolve_right (by norm_num))
    have unit : (1 : ℚ) ≤ |(x.toRat - 1) * 10 ^ 60| := by
      rw [whole]
      exact_mod_cast Int.one_le_abs apart
    rwa [abs_mul, abs_of_pos (by norm_num : (0 : ℚ) < 10 ^ 60), ← div_le_iff₀ (by norm_num)] at unit
  · -- sixty digits that far after the point are less than a tenth
    have place : x.firstPlace + 1 ≤ -1 := by
      have digits : digitCount x.mantissa.natAbs ≤ 60 := digitCount_of_canonical canonical
      rw [firstPlace]
      omega
    have small := (lt_ten_zpow_firstPlace x).le.trans (zpow_le_zpow_right₀ (by norm_num) place)
    rw [le_abs, neg_sub]
    right
    norm_num at small ⊢
    linarith [le_abs_self x.toRat]

/-- The logarithm of such a decimal has the sign of the difference, and is not much smaller. -/
theorem log_toRat_far (canonical : x.Canonical) (pos : 0 < x.mantissa) :
    (1 < x.toRat → 1 / 10 ^ 61 ≤ Real.log x.toRat) ∧
      (x.toRat < 1 → Real.log x.toRat ≤ -(1 / 10 ^ 61)) := by
  have pos' : (0 : ℝ) < x.toRat := by exact_mod_cast toRat_pos_iff.2 pos
  constructor
  · intro above
    have gap := le_abs_toRat_sub_one canonical above.ne'
    rw [abs_of_pos (sub_pos.2 above)] at gap
    have gap' := (Rat.cast_le (K := ℝ)).2 gap
    push_cast at gap'
    have tangent := Real.one_sub_inv_le_log_of_pos pos'
    have inverse : (x.toRat : ℝ)⁻¹ ≤ 1 - 1 / 10 ^ 61 := by
      rw [inv_le_iff_one_le_mul₀ pos']
      norm_num at gap' ⊢
      linarith
    linarith
  · intro below
    have gap := le_abs_toRat_sub_one canonical below.ne
    rw [abs_of_neg (sub_neg.2 below)] at gap
    have gap' := (Rat.cast_le (K := ℝ)).2 gap
    push_cast at gap'
    have tangent := Real.log_le_sub_one_of_pos pos'
    linarith

end Gap

section Scaled

theorem scaledLogarithm_one : one.scaledLogarithm = 0 := by
  have power := scaledLogarithm_tenPow (k := 0) (by decide) (by decide)
  rwa [Int.zero_mul] at power

/-- The logarithm at the working digits is zero for one alone, and large otherwise. -/
theorem scaledLogarithm_cases (held : x.Held) (pos : 0 < x.mantissa) (high : x.order ≤ maxOrder) :
    x.toRat = 1 ∧ x.scaledLogarithm = 0 ∨
      1 < x.toRat ∧ 3 ≤ x.scaledLogarithm ∨
      x.toRat < 1 ∧ x.scaledLogarithm ≤ -3 := by
  obtain ⟨above, below⟩ := log_toRat_far held.canonical pos
  obtain ⟨low, high⟩ := abs_le.1 (abs_scaledLogarithm_sub_le held pos high)
  rw [tenPow_workingDigits] at low high
  rcases lt_trichotomy x.toRat 1 with less | same | more
  · right; right
    refine ⟨less, ?_⟩
    have far := below less
    have units : (x.scaledLogarithm : ℝ) ≤ -3 := by
      rw [abs_of_neg (by norm_num at far; linarith)] at high
      norm_num at far high
      linarith
    exact_mod_cast units
  · left
    have unit : x = one := eq_of_toRat_eq held.canonical canonical_one (same.trans toRat_one.symm)
    exact ⟨same, unit ▸ scaledLogarithm_one⟩
  · right; left
    refine ⟨more, ?_⟩
    have far := above more
    have units : 3 ≤ (x.scaledLogarithm : ℝ) := by
      rw [abs_of_pos (by norm_num at far; linarith)] at low
      norm_num at far low
      linarith
    exact_mod_cast units

theorem sign_scaledLogarithm (held : x.Held) (pos : 0 < x.mantissa) (high : x.order ≤ maxOrder) :
    SignType.sign (x.scaledLogarithm : ℚ) = SignType.sign (x.toRat - 1) := by
  rcases scaledLogarithm_cases held pos high with ⟨unit, none⟩ | ⟨above, large⟩ | ⟨below, large⟩
  · rw [unit, none, Int.cast_zero, sub_self]
  · rw [sign_pos (Int.cast_pos.2 (by omega)), sign_pos (sub_pos.2 above)]
  · rw [sign_neg (Int.cast_lt_zero.2 (by omega)), sign_neg (sub_neg.2 below)]

/-- The division by `ln 10` leaves something of a logarithm that is not zero. -/
theorem sign_decimalLogarithm (held : x.Held) (pos : 0 < x.mantissa) (high : x.order ≤ maxOrder) :
    SignType.sign (((x.scaledLogarithm * tenTo workingDigits).tdiv
      (logarithmTen workingDigits) : Int) : ℚ) = SignType.sign (x.toRat - 1) := by
  obtain ⟨positive, three⟩ := workingTen_bounds
  rw [← realCast_tenTo] at three
  have three' : logarithmTen workingDigits ≤ 3 * tenTo workingDigits := by exact_mod_cast three
  have scale : (0 : Int) ≤ tenTo workingDigits := Int.natCast_nonneg _
  -- three units are worth more than `ln 10`
  have quotient {n : Int} (large : 3 ≤ n) :
      0 < (n * tenTo workingDigits).tdiv (logarithmTen workingDigits) := by
    have enough := three'.trans (Int.mul_le_mul_of_nonneg_right large scale)
    rw [Int.tdiv_eq_ediv_of_nonneg (positive.le.trans enough)]
    exact Int.le_ediv_of_mul_le positive (by rwa [Int.zero_add, Int.one_mul])
  rcases scaledLogarithm_cases held pos high with ⟨unit, none⟩ | ⟨above, large⟩ | ⟨below, large⟩
  · rw [unit, none, Int.zero_mul, Int.zero_tdiv, Int.cast_zero, sub_self]
  · rw [sign_pos (Int.cast_pos.2 (quotient large)), sign_pos (sub_pos.2 above)]
  · have opposite := quotient (Int.le_neg_of_le_neg large)
    rw [Int.neg_mul, Int.neg_tdiv, Int.neg_pos] at opposite
    rw [sign_neg (Int.cast_lt_zero.2 opposite), sign_neg (sub_neg.2 below)]

end Scaled

/-- A result that is positive, zero or negative as a number is above one, one or below one. -/
structure SignFromOne (l x : Decimal) : Prop where
  positive : l.IsPositive ↔ one < x
  zero : l.IsZero ↔ x = one
  negative : l.IsNegative ↔ x < one

theorem signFromOne_ofScaled {n : Int} (canonical : x.Canonical)
    (sign : SignType.sign (n : ℚ) = SignType.sign (x.toRat - 1)) :
    SignFromOne (ofScaled n workingDigits) x := by
  have same : SignType.sign ((ofScaled n workingDigits).mantissa : ℚ) =
      SignType.sign (x.toRat - 1) := (sign_mantissa_ofParts _ _).trans sign
  generalize ofScaled n workingDigits = l at same ⊢
  constructor
  · rw [lt_iff_toRat_lt canonical_one canonical, toRat_one, ← sub_pos, ← sign_eq_one_iff, ← same,
      sign_eq_one_iff, Int.cast_pos]
    rfl
  · have unit : x = one ↔ x.toRat - 1 = 0 := by
      rw [sub_eq_zero, ← toRat_one]
      exact ⟨congrArg toRat, eq_of_toRat_eq canonical canonical_one⟩
    rw [unit, ← sign_eq_zero_iff, ← same, sign_eq_zero_iff, Int.cast_eq_zero]
    rfl
  · rw [lt_iff_toRat_lt canonical canonical_one, toRat_one, ← sub_neg, ← sign_eq_neg_one_iff,
      ← same, sign_eq_neg_one_iff, Int.cast_lt_zero]
    rfl

/-- Both logarithms of a positive number have the sign that they should have. -/
theorem logarithm_signs (held : x.Held) (pos : x.IsPositive) (orders : x.order.natAbs ≤ 10 ^ 15) :
    ∃ l d, x.ln = .ok l ∧ x.log10 = .ok d ∧ SignFromOne l x ∧ SignFromOne d x := by
  have high : x.order ≤ maxOrder := by
    rw [maxOrder]
    omega
  exact ⟨_, _, if_pos pos, if_pos pos,
    signFromOne_ofScaled held.canonical (sign_scaledLogarithm held pos high),
    signFromOne_ofScaled held.canonical (sign_decimalLogarithm held pos high)⟩

/-- The neighbours of one on either side. -/
theorem logarithm_signs_beside_one :
    (∃ l d, ln ⟨10 ^ 59 + 1, -59⟩ = .ok l ∧ log10 ⟨10 ^ 59 + 1, -59⟩ = .ok d ∧
      SignFromOne l ⟨10 ^ 59 + 1, -59⟩ ∧ SignFromOne d ⟨10 ^ 59 + 1, -59⟩) ∧
    ∃ l d, ln ⟨10 ^ 60 - 1, -60⟩ = .ok l ∧ log10 ⟨10 ^ 60 - 1, -60⟩ = .ok d ∧
      SignFromOne l ⟨10 ^ 60 - 1, -60⟩ ∧ SignFromOne d ⟨10 ^ 60 - 1, -60⟩ := by
  have above : Held ⟨10 ^ 59 + 1, -59⟩ := held_of_written (by decide)
  have below : Held ⟨10 ^ 60 - 1, -60⟩ := held_of_written (by decide)
  have first : order ⟨10 ^ 59 + 1, -59⟩ = 0 := order_of_written 59 (by decide)
  have second : order ⟨10 ^ 60 - 1, -60⟩ = -1 := order_of_written 59 (by decide)
  exact ⟨logarithm_signs above (by decide) (by rw [first]; decide),
    logarithm_signs below (by decide) (by rw [second]; decide)⟩

end ScientificCalculator.Decimal
