import ScientificCalculator.Proofs.Decimal.Guarded

/-!
Quotients of decimals. A quotient is rounded to a guard place at least five places below its last
one and then to the last place, so it is the exact quotient rounded once unless that is just short
of a half. A quotient that needs no more digits is exact, so dividing undoes an exact
multiplication.
-/

namespace ScientificCalculator

namespace Decimal
variable {x y : Decimal}

/-- The place to which a quotient is rounded first. -/
def guardPlace (x y : Decimal) : Int := x.exponent - y.exponent - quotientDigits x y

/-- The quotient in units of its guard place. -/
def guardedQuotient (x y : Decimal) : Int :=
  y.mantissa.sign * roundDiv (x.mantissa * tenTo (quotientDigits x y)) y.mantissa.natAbs

/-- No exponent stops at an end of the range while `x` is divided by `y`. -/
structure QuotientInRange (x y : Decimal) : Prop where
  difference : x.exponent - y.exponent ≤ greatestExponent
  guard : leastExponent ≤ guardPlace x y
  result : fullExponent (guardedQuotient x y) (guardPlace x y) ≤ greatestExponent

/-- No exponent stops at an end of the range while `x` and `y` are multiplied. -/
structure ProductInRange (x y : Decimal) : Prop where
  sum : leastExponent ≤ x.exponent + y.exponent
  result : fullExponent (x.mantissa * y.mantissa) (x.exponent + y.exponent) ≤ greatestExponent

instance (x y : Decimal) : Decidable (ProductInRange x y) :=
  decidable_of_iff (leastExponent ≤ x.exponent + y.exponent ∧
      fullExponent (x.mantissa * y.mantissa) (x.exponent + y.exponent) ≤ greatestExponent)
    ⟨fun ⟨sum, result⟩ => ⟨sum, result⟩, fun inRange => ⟨inRange.sum, inRange.result⟩⟩

theorem div?_zero_left (zero : x.mantissa = 0) (nonzero : y.mantissa ≠ 0) :
    x.div? y = some Decimal.zero := by
  rw [div?, if_neg (show ¬ y.IsZero from nonzero), if_pos (show x.IsZero from zero)]

theorem div?_eq (nonzero : x.mantissa ≠ 0) (nonzero' : y.mantissa ≠ 0)
    (inRange : QuotientInRange x y) :
    x.div? y = some (ofParts (guardedQuotient x y) (guardPlace x y)) := by
  have guard := inRange.guard
  have difference := inRange.difference
  rw [guardPlace] at guard
  rw [div?, if_neg (show ¬ y.IsZero from nonzero'), if_neg (show ¬ x.IsZero from nonzero)]
  simp only
  rw [saturate_of_mem (by omega) difference, saturate_of_mem guard (by omega)]
  rfl

theorem guardedQuotient_mul (nonzero : y.mantissa ≠ 0) :
    (guardedQuotient x y : ℚ) * 10 ^ guardPlace x y =
      roundAt (guardPlace x y) (x.toRat / y.toRat) := by
  have pos : 0 < y.mantissa.natAbs := Int.natAbs_pos.2 nonzero
  have magnitude := roundDiv_mul_ten_zpow (x.mantissa * tenTo (quotientDigits x y)) pos
    (guardPlace x y)
  have places : x.exponent = (quotientDigits x y : Nat) + guardPlace x y + y.exponent := by
    rw [guardPlace]
    omega
  have value : x.toRat / y.toRat =
      ((x.mantissa * tenTo (quotientDigits x y) : Int) : ℚ) / y.mantissa *
        10 ^ guardPlace x y := by
    rw [toRat, toRat, places, zpow_add₀ (by norm_num), zpow_add₀ (by norm_num), zpow_natCast,
      Int.cast_mul, Int.cast_natCast, natCast_tenTo]
    have unit := ten_zpow_pos y.exponent
    have divisor : (y.mantissa : ℚ) ≠ 0 := by exact_mod_cast nonzero
    field_simp
  rw [value, guardedQuotient, Int.cast_mul]
  rcases lt_or_gt_of_ne nonzero with negative | positive
  · have divisor : (y.mantissa : ℚ) = -(y.mantissa.natAbs : ℚ) := by
      rw [← Int.cast_natCast, ← Int.cast_neg, Int.cast_inj]
      omega
    rw [Int.sign_eq_neg_one_of_neg negative, divisor, div_neg, neg_mul, roundAt_neg, ← magnitude]
    push_cast
    ring
  · have divisor : (y.mantissa : ℚ) = (y.mantissa.natAbs : ℚ) := by
      rw [← Int.cast_natCast, Int.cast_inj]
      omega
    rw [Int.sign_eq_one_of_pos positive, divisor, ← magnitude]
    push_cast
    ring

/-- The guard place is at least five places below the last one. -/
theorem guardPlace_add_five_le (canonical : x.Canonical) (nonzero : x.mantissa ≠ 0)
    (nonzero' : y.mantissa ≠ 0) : guardPlace x y + 5 ≤ lastPlace |x.toRat / y.toRat| := by
  have few := digitCount_of_canonical canonical
  have dividend := ten_zpow_firstPlace_le nonzero
  have divisor := lt_ten_zpow_firstPlace y
  have divisor' : 0 < |y.toRat| := abs_pos.2 (mt toRat_eq_zero_iff.1 nonzero')
  have quotient : (10 : ℚ) ^ (guardPlace x y + 64) ≤ |x.toRat / y.toRat| := by
    have places : x.firstPlace = guardPlace x y + 64 + (y.firstPlace + 1) := by
      rw [firstPlace, firstPlace, guardPlace, quotientDigits]
      unfold precision at *
      omega
    rw [abs_div, le_div_iff₀ divisor']
    calc (10 : ℚ) ^ (guardPlace x y + 64) * |y.toRat|
        ≤ 10 ^ (guardPlace x y + 64) * 10 ^ (y.firstPlace + 1) :=
          mul_le_mul_of_nonneg_left divisor.le (ten_zpow_pos _).le
      _ = 10 ^ x.firstPlace := by rw [places, zpow_add₀ (by norm_num) (_ + _) (_ + _)]
      _ ≤ |x.toRat| := dividend
  have least := (Int.zpow_le_iff_le_log (b := 10) (by decide)
    (lt_of_lt_of_le (ten_zpow_pos _) quotient)).1 (by exact_mod_cast quotient)
  rw [lastPlace, precision]
  omega

/-- Division has a result, the exact quotient rounded to the guard place and then to the last. -/
theorem exists_div? (nonzero : y.mantissa ≠ 0) (inRange : x.mantissa ≠ 0 → QuotientInRange x y) :
    ∃ z, x.div? y = some z ∧ z.Canonical ∧
      z.toRat = roundSignificant (roundAt (guardPlace x y) (x.toRat / y.toRat)) := by
  by_cases zero : x.mantissa = 0
  · refine ⟨_, div?_zero_left zero nonzero, canonical_zero, ?_⟩
    rw [toRat_zero, toRat_eq_zero_iff.2 zero, zero_div, roundAt_zero, roundSignificant_zero]
  · have unlimited := inRange zero
    refine ⟨_, div?_eq zero nonzero unlimited, canonical_ofParts _ _, ?_⟩
    rw [toRat_ofParts_of_fullExponent unlimited.guard unlimited.result,
      guardedQuotient_mul nonzero]

/-- A quotient that is short of a half in its last place by no more than half a unit of the guard
place is rounded to the next number away from zero; any other one is rounded to the nearest. -/
theorem quotient_rounded_twice (canonical : x.Canonical) (nonzero : y.mantissa ≠ 0)
    (inRange : x.mantissa ≠ 0 → QuotientInRange x y) :
    ∃ z, x.div? y = some z ∧
      (ShortOfHalf (x.toRat / y.toRat) (10 ^ guardPlace x y / 2) →
        z.toRat = roundSignificant (x.toRat / y.toRat) +
          SignType.sign (x.toRat / y.toRat) * 10 ^ lastPlace |x.toRat / y.toRat|) ∧
      (¬ ShortOfHalf (x.toRat / y.toRat) (10 ^ guardPlace x y / 2) →
        z.toRat = roundSignificant (x.toRat / y.toRat)) ∧
      (x.mantissa ≠ 0 → guardPlace x y + 5 ≤ lastPlace |x.toRat / y.toRat|) ∧
      |z.toRat - x.toRat / y.toRat| ≤
        (1 / 2 + 1 / 200000) * 10 ^ lastPlace |x.toRat / y.toRat| := by
  obtain ⟨z, found, -, rounded⟩ := exists_div? nonzero inRange
  refine ⟨z, found, ?_⟩
  rw [rounded]
  by_cases zero : x.mantissa = 0
  · rw [toRat_eq_zero_iff.2 zero, zero_div, roundAt_zero, roundSignificant_zero, sign_zero,
      SignType.coe_zero, zero_mul, add_zero, sub_zero, abs_zero]
    refine ⟨fun _ => rfl, fun _ => rfl, fun some => absurd zero some, ?_⟩
    exact mul_nonneg (by norm_num) (ten_zpow_pos _).le
  · have guard := guardPlace_add_five_le canonical zero nonzero
    have below : guardPlace x y < lastPlace |x.toRat / y.toRat| := by omega
    obtain ⟨carried, kept⟩ := roundSignificant_roundAt below
    have error := abs_roundSignificant_roundAt_sub_le below
    have narrow : 10 ^ 5 * (10 : ℚ) ^ guardPlace x y ≤ 10 ^ lastPlace |x.toRat / y.toRat| := by
      rw [← ten_zpow_eq_mul (i := guardPlace x y + 5) 5 (by omega)]
      exact zpow_le_zpow_right₀ (by norm_num) guard
    exact ⟨carried, kept, fun _ => guard, error.trans (by linarith)⟩

/-- The quotient of -1999997 and 1000001 is short of a half by half of `10 ^ -6` units, and its
last digit is one too large. -/
theorem quotient_short_of_half : ∃ z, div? ⟨-1999997, 0⟩ ⟨1000001, 0⟩ = some z ∧
    z.toRat = roundSignificant ((⟨-1999997, 0⟩ : Decimal).toRat / (⟨1000001, 0⟩ : Decimal).toRat) -
      1 / 10 ^ 59 := by
  have value : (⟨-1999997, 0⟩ : Decimal).toRat / (⟨1000001, 0⟩ : Decimal).toRat =
      -(1999997 / 1000001) := by
    norm_num [toRat]
  have place : lastPlace (1999997 / 1000001 : ℚ) = -59 :=
    lastPlace_eq (k := 0) (by norm_num) (by norm_num)
  have canonical : Canonical ⟨-1999997, 0⟩ := by decide +kernel
  have inRange : QuotientInRange ⟨-1999997, 0⟩ ⟨1000001, 0⟩ :=
    ⟨by decide, by decide +kernel, by decide +kernel⟩
  have guard : guardPlace ⟨-1999997, 0⟩ ⟨1000001, 0⟩ = -65 := by decide +kernel
  obtain ⟨z, found, short, -⟩ := quotient_rounded_twice canonical (by decide) fun _ => inRange
  rw [value, guard] at short
  refine ⟨z, found, ?_⟩
  rw [value, short ⟨199999500000499999500000499999500000499999500000499999500000, ?_⟩]
  · rw [sign_neg (by norm_num), abs_neg, abs_of_pos (by norm_num), place]
    norm_num
    ring
  · rw [abs_neg, abs_of_pos (by norm_num), place]
    norm_num

/-- Not every quotient is the exact one rounded to its last place: 1999997 / 1000001 ends in the
digits 500000.4999995 in units of that place, and it is rounded up. -/
theorem quotient_not_nearest : Canonical ⟨1999997, 0⟩ ∧ Canonical ⟨1000001, 0⟩ ∧
    QuotientInRange ⟨1999997, 0⟩ ⟨1000001, 0⟩ ∧
    div? ⟨1999997, 0⟩ ⟨1000001, 0⟩ =
      some ⟨199999500000499999500000499999500000499999500000499999500001, -59⟩ ∧
    toRat ⟨199999500000499999500000499999500000499999500000499999500001, -59⟩ ≠
      roundSignificant ((⟨1999997, 0⟩ : Decimal).toRat / (⟨1000001, 0⟩ : Decimal).toRat) := by
  refine ⟨by decide +kernel, by decide +kernel, ⟨by decide, by decide +kernel, by decide +kernel⟩,
    by with_unfolding_all rfl, ?_⟩
  have value : (⟨1999997, 0⟩ : Decimal).toRat / (⟨1000001, 0⟩ : Decimal).toRat =
      1999997 / 1000001 := by
    norm_num [toRat]
  have nearest : roundMagnitude (1999997 / 1000001) =
      (199999500000499999500000499999500000499999500000499999500000 : Int) *
        10 ^ (0 + 1 - (precision : Int)) := by
    apply roundMagnitude_eq <;> norm_num [precision]
  rw [value, roundSignificant_of_pos (by norm_num), nearest]
  norm_num [toRat, precision]

section Exact

/-- A number with enough zeros at its end is not rounded. -/
theorem roundSignificant_of_short {m : Int} (short : digitCount (stripped m.natAbs) ≤ precision)
    (e : Int) : roundSignificant (m * 10 ^ e) = m * 10 ^ e := by
  have magnitude : roundSignificant ((m.natAbs : ℚ) * 10 ^ e) = m.natAbs * 10 ^ e := by
    have value : ((m.natAbs : Nat) : ℚ) * 10 ^ e =
        stripped m.natAbs * 10 ^ ((trailingZeros m.natAbs : Int) + e) := by
      rw [ten_zpow_eq_mul _ rfl, ← natCast_tenTo, ← mul_assoc, ← Nat.cast_mul, stripped_mul]
    rw [value, roundSignificant_parts_of_short short]
  rcases Int.natAbs_eq m with same | opposite
  · rw [same, Int.cast_natCast]
    exact magnitude
  · rw [opposite, Int.cast_neg, Int.cast_natCast, neg_mul, roundSignificant_neg, magnitude]

theorem toRat_mul_of_inRange (inRange : ProductInRange x y) :
    (x * y).toRat = roundSignificant (x.toRat * y.toRat) := by
  have most := (le_fullExponent _ _).trans inRange.result
  have product : x * y = ofParts (x.mantissa * y.mantissa) (x.exponent + y.exponent) := by
    show ofParts _ (saturate _) = _
    rw [saturate_of_mem inRange.sum most]
  rw [product, toRat_ofParts_of_fullExponent inRange.sum inRange.result, toRat_mul_toRat]

theorem toRat_mul_of_short (inRange : ProductInRange x y)
    (short : digitCount (stripped (x.mantissa * y.mantissa).natAbs) ≤ precision) :
    (x * y).toRat = x.toRat * y.toRat := by
  rw [toRat_mul_of_inRange inRange, toRat_mul_toRat, roundSignificant_of_short short]

theorem roundAt_toRat {place : Int} (le : place ≤ x.exponent) :
    roundAt place x.toRat = x.toRat := by
  rw [toRat_widen le, roundAt_of_multiple]

theorem lastPlace_le_exponent (canonical : x.Canonical) (nonzero : x.mantissa ≠ 0) :
    lastPlace |x.toRat| ≤ x.exponent := by
  have few := digitCount_of_canonical canonical
  rw [lastPlace_eq (ten_zpow_firstPlace_le nonzero) (lt_ten_zpow_firstPlace x), firstPlace]
  omega

/-- A number multiplied by another one is got back by the division, if the product was exact. -/
theorem div?_mul_cancel (canonical : x.Canonical) (nonzero : y.mantissa ≠ 0)
    (short : digitCount (stripped (y.mantissa * x.mantissa).natAbs) ≤ precision)
    (product : ProductInRange y x) (quotient : x.mantissa ≠ 0 → QuotientInRange (y * x) y) :
    (y * x).div? y = some x := by
  have value := toRat_mul_of_short product short
  have divisor : y.toRat ≠ 0 := mt toRat_eq_zero_iff.1 nonzero
  by_cases zero : x.mantissa = 0
  · have zero' : (y * x).mantissa = 0 := by
      rw [← toRat_eq_zero_iff, value, toRat_eq_zero_iff.2 zero, mul_zero]
    have same : x = Decimal.zero :=
      eq_of_toRat_eq canonical canonical_zero ((toRat_eq_zero_iff.2 zero).trans toRat_zero.symm)
    rw [div?_zero_left zero' nonzero, same]
  · have exact' : (y * x).toRat / y.toRat = x.toRat := by
      rw [value, mul_div_cancel_left₀ _ divisor]
    have nonzero' : (y * x).mantissa ≠ 0 := by
      rw [Ne, ← toRat_eq_zero_iff, value]
      exact mul_ne_zero divisor (mt toRat_eq_zero_iff.1 zero)
    have guard := guardPlace_add_five_le (canonical_mul y x) nonzero' nonzero
    have place := lastPlace_le_exponent canonical zero
    rw [exact'] at guard
    obtain ⟨z, found, canonical', rounded⟩ := exists_div? nonzero fun _ => quotient zero
    rw [exact', roundAt_toRat (by omega), roundSignificant_toRat canonical] at rounded
    rw [found, eq_of_toRat_eq canonical' canonical rounded]

/-- Two numbers with sixty digits each, whose product has thirty-five and eighty-five zeros. -/
theorem div?_mul_cancel_powers :
    ((⟨-5 ^ 85, 3⟩ : Decimal) * ⟨2 ^ 199, -7⟩).div? ⟨-5 ^ 85, 3⟩ = some ⟨2 ^ 199, -7⟩ := by
  have short : digitCount (stripped ((-5 ^ 85 : Int) * 2 ^ 199).natAbs) ≤ precision := by
    decide +kernel
  have product : ProductInRange ⟨-5 ^ 85, 3⟩ ⟨2 ^ 199, -7⟩ := ⟨by decide, by decide +kernel⟩
  have quotient : QuotientInRange ((⟨-5 ^ 85, 3⟩ : Decimal) * ⟨2 ^ 199, -7⟩) ⟨-5 ^ 85, 3⟩ :=
    ⟨by decide +kernel, by decide +kernel, by decide +kernel⟩
  exact div?_mul_cancel (by decide +kernel) (by decide) short product fun _ => quotient

end Exact

end Decimal

end ScientificCalculator
