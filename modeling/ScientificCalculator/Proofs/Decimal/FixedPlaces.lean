import ScientificCalculator.Proofs.Decimal.Quotient

/-!
Decimals at a fixed number of places after the point. The way there rounds to the nearest integer;
it is exact for a decimal without further places, and such a decimal comes back unchanged, as does
an integer that a decimal can hold.
-/

namespace ScientificCalculator.Decimal

variable {x : Decimal} {m n : Int} {digits : Nat}

theorem toScaled_eq_roundAt (held : x.Held) (countable : digits ≤ greatestExponent)
    (within : x.exponent + digits ≤ greatestExponent) :
    (x.toScaled digits : ℚ) = roundAt 0 (x.toRat * 10 ^ digits) := by
  obtain ⟨n, d, pos, quotient, rounded⟩ := toScaled_eq_roundDiv held countable within
  have nearest := roundDiv_mul_ten_zpow n pos 0
  rw [zpow_zero, mul_one, mul_one] at nearest
  rw [quotient, rounded, nearest]

/-- An integer at these places is not rounded. -/
theorem toScaled_of_toRat_eq (held : x.Held) (countable : digits ≤ greatestExponent)
    (within : x.exponent + digits ≤ greatestExponent) (whole : x.toRat * 10 ^ digits = n) :
    x.toScaled digits = n := by
  have rounded := toScaled_eq_roundAt held countable within
  have unrounded := roundAt_of_multiple n 0
  rw [zpow_zero, mul_one] at unrounded
  rw [whole, unrounded] at rounded
  exact_mod_cast rounded

/-- A decimal with no further places is not rounded. -/
theorem toScaled_of_places (held : x.Held) (countable : digits ≤ greatestExponent)
    (within : x.exponent + digits ≤ greatestExponent) (places : -digits ≤ x.exponent) :
    (x.toScaled digits : ℚ) = x.toRat * 10 ^ digits := by
  obtain ⟨p, total⟩ := Int.eq_ofNat_of_zero_le (by omega : 0 ≤ x.exponent + digits)
  have whole : x.toRat * 10 ^ digits = ((x.mantissa * 10 ^ p : Int) : ℚ) := by
    rw [toRat_mul_pow, total, zpow_natCast]
    push_cast
    rfl
  rw [toScaled_of_toRat_eq held countable within whole, whole]

theorem ofScaled_toScaled (held : x.Held) (countable : digits ≤ greatestExponent)
    (within : x.exponent + digits ≤ greatestExponent) (places : -digits ≤ x.exponent) :
    ofScaled (x.toScaled digits) digits = x := by
  rw [ofScaled_eq _ countable]
  apply ofParts_eq_of_toRat_eq held
  rw [toScaled_of_places held countable within places, zpow_neg, zpow_natCast,
    mul_inv_cancel_right₀ (by positivity), roundSignificant_toRat held.canonical]

/-- An integer with few significant digits is not rounded, unless its exponent stops at the end of
the range. -/
theorem toRat_ofParts_of_significant {e : Int} {zeros : Nat} (short : |m| < 10 ^ precision)
    (least : leastExponent ≤ e) (most : (ofParts (m * 10 ^ zeros) e).exponent < greatestExponent) :
    (ofParts (m * 10 ^ zeros) e).toRat = (m * 10 ^ zeros : Int) * 10 ^ e := by
  by_cases zero : m = 0
  · rw [zero, zero_mul, ofParts_zero, toRat_zero, Int.cast_zero, zero_mul]
  · have nonzero : m * 10 ^ zeros ≠ 0 := mul_ne_zero zero (by positivity)
    have full : fullExponent (m * 10 ^ zeros) e ≤ greatestExponent := by
      rw [exponent_ofParts nonzero] at most
      unfold saturate at most
      omega
    have few : digitCount (stripped m.natAbs) ≤ precision := by
      apply digitCount_stripped_le (Int.natAbs_pos.2 zero)
      rw [Int.abs_eq_natAbs] at short
      exact_mod_cast short.le
    have value : ((m * 10 ^ zeros : Int) : ℚ) * 10 ^ e = m * 10 ^ ((zeros : Int) + e) := by
      rw [ten_zpow_eq_mul zeros rfl]
      push_cast
      ring
    rw [toRat_ofParts_of_fullExponent least full, value, roundSignificant_of_short few]

theorem toScaled_ofScaled (countable : digits ≤ greatestExponent) {zeros : Nat}
    (short : |m| < 10 ^ precision)
    (within : (ofScaled (m * 10 ^ zeros) digits).exponent + digits < greatestExponent) :
    (ofScaled (m * 10 ^ zeros) digits).toScaled digits = m * 10 ^ zeros := by
  have least : leastExponent ≤ -digits := by
    unfold leastExponent
    unfold greatestExponent at countable
    omega
  have most : (ofScaled (m * 10 ^ zeros) digits).exponent < greatestExponent := by omega
  have value : (ofScaled (m * 10 ^ zeros) digits).toRat =
      (m * 10 ^ zeros : Int) * 10 ^ (-digits : Int) := by
    rw [ofScaled_eq _ countable] at most ⊢
    exact toRat_ofParts_of_significant short least most
  have held : (ofScaled (m * 10 ^ zeros) digits).Held := held_ofParts _ _
  apply toScaled_of_toRat_eq held countable within.le
  rw [value, zpow_neg, zpow_natCast, inv_mul_cancel_right₀ (by positivity)]

/-- For every count of places that an exponent can hold, the fixed-point number of a decimal is the
integer nearest to it, a half going away from zero; a decimal without further places comes back from
it, and an integer with at most sixty significant digits comes back from its decimal. -/
theorem fixed_places_round_trip {digits : Nat} (countable : (digits : Int) ≤ greatestExponent) :
    (∀ x : Decimal, x.Held → x.exponent + digits ≤ 2 ^ 32 - 1 →
      (x.toScaled digits : ℚ) = roundAt 0 (x.toRat * 10 ^ digits) ∧
        (-digits ≤ x.exponent → ofScaled (x.toScaled digits) digits = x)) ∧
    ∀ (m : Int) (zeros : Nat), |m| < 10 ^ 60 →
      (ofScaled (m * 10 ^ zeros) digits).exponent + digits ≤ 2 ^ 32 - 1 →
        (ofScaled (m * 10 ^ zeros) digits).toScaled digits = m * 10 ^ zeros := by
  have room : (2 : Int) ^ 32 - 1 < greatestExponent := by decide
  constructor
  · intro x held within
    have within' := within.trans room.le
    exact ⟨toScaled_eq_roundAt held countable within', ofScaled_toScaled held countable within'⟩
  · intro m zeros short within
    exact toScaled_ofScaled countable short (within.trans_lt room)

/-- Half a unit, from the least exponent at the greatest count of places, and 12500 at five places
there and back. -/
theorem fixed_places_half_unit :
    toScaled ⟨-5, leastExponent⟩ greatestExponent.toNat = -1 ∧
      ofScaled (toScaled ⟨125, -3⟩ 5) 5 = ⟨125, -3⟩ ∧
      (ofScaled (125 * 10 ^ 2) 5).toScaled 5 = 125 * 10 ^ 2 := by
  have places : leastExponent + (greatestExponent.toNat : Int) = -1 := by decide
  have half : toRat ⟨-5, leastExponent⟩ * 10 ^ greatestExponent.toNat = -(1 / 2) := by
    rw [toRat_mul_pow, places]
    norm_num
  have up : roundAt 0 (1 / 2) = 1 := by
    rw [roundAt_of_pos (by norm_num)]
    norm_num
  obtain ⟨rounded, -⟩ := @fixed_places_round_trip greatestExponent.toNat (by decide)
  have nearest := (rounded ⟨-5, leastExponent⟩ (held_of_written (by decide)) (by decide)).1
  rw [half, roundAt_neg, up] at nearest
  obtain ⟨returned, integers⟩ := @fixed_places_round_trip 5 (by decide)
  have back := (returned ⟨125, -3⟩ (held_of_written (by decide)) (by decide)).2 (by decide)
  have scaled : toScaled ⟨125, -3⟩ 5 = 125 * 10 ^ 2 := by decide
  have known := back
  rw [scaled] at known
  refine ⟨by exact_mod_cast nearest, back, integers 125 2 (by decide) ?_⟩
  rw [known]
  decide

/-- A count of places that no exponent can hold is taken for a negative one: the least power of ten
times its inverse is one, but it is brought to zero. -/
theorem toScaled_uncountable :
    Held ⟨1, leastExponent⟩ ∧ leastExponent + leastExponent.natAbs ≤ 2 ^ 32 - 1 ∧
      toScaled ⟨1, leastExponent⟩ leastExponent.natAbs = 0 ∧
      roundAt 0 (toRat ⟨1, leastExponent⟩ * 10 ^ leastExponent.natAbs) = 1 := by
  refine ⟨held_of_written (by decide), by decide, ?_, ?_⟩
  · have places : saturate (leastExponent + wrapped leastExponent.natAbs) = leastExponent := by
      decide
    have few : digitCount (1 : Int).natAbs + 1 < leastExponent.natAbs := by
      rw [Int.natAbs_one, digitCount_of_lt (by decide)]
      decide
    rw [toScaled]
    simp only [places]
    rw [if_neg (by decide), if_pos few]
  · have cancels : leastExponent + (leastExponent.natAbs : Int) = 0 := by decide
    have one := roundAt_of_multiple 1 0
    rw [zpow_zero, mul_one, Int.cast_one] at one
    rw [toRat_mul_pow, cancels, zpow_zero, mul_one, Int.cast_one, one]

end ScientificCalculator.Decimal
