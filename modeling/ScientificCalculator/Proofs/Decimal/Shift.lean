import ScientificCalculator.Proofs.Decimal.Integer
import ScientificCalculator.Proofs.Decimal.Literal

/-!
Powers of ten as factors. A shift passes through the rounding of parts, and an integer is read off
the exponent of the power, so an integer power of ten is a shift. So is an exponent that is typed
after a number.
-/

namespace ScientificCalculator.Decimal

variable {x y : Decimal} {m e n : Int}

theorem mantissa_ofParts_congr (m e e' : Int) :
    (ofParts m e).mantissa = (ofParts m e').mantissa := by
  unfold ofParts
  split <;> rfl

theorem fullExponent_add (m e n : Int) : fullExponent m (e + n) = fullExponent m e + n := by
  rw [fullExponent, fullExponent]
  ring

/-- Rounding keeps the same digits wherever the point stands. -/
theorem roundSignificant_shift (m e n : Int) :
    roundSignificant (m * 10 ^ (e + n)) = roundSignificant (m * 10 ^ e) * 10 ^ n := by
  by_cases zero : m = 0
  · rw [zero, Int.cast_zero, zero_mul, zero_mul, roundSignificant_zero, zero_mul]
  · rw [← mantissa_mul_ofParts zero, ← mantissa_mul_ofParts zero,
      mantissa_ofParts_congr m (e + n) e, fullExponent_add, zpow_add₀ (by norm_num), mul_assoc]

theorem shift_ofParts (least : leastExponent ≤ e)
    (most : e + digitCount m.natAbs + precision ≤ greatestExponent) :
    (ofParts m e).shift n = ofParts m (e + n) := by
  by_cases zero : m = 0
  · rw [zero, ofParts_zero, ofParts_zero]
    rfl
  · have low := least.trans (le_fullExponent m e)
    have high := (fullExponent_le zero).trans most
    have remains : ¬ (ofParts m e).IsZero := mantissa_ofParts_ne_zero zero
    rw [shift, if_neg remains]
    apply Decimal.ext
    · exact mantissa_ofParts_congr m e (e + n)
    · rw [exponent_ofParts zero, exponent_ofParts zero, fullExponent_add, saturate_of_mem low high]

theorem timesTenPower_of_toRat_eq (held : y.Held) (value : y.toRat = n)
    (bounded : n.natAbs ≤ maxOrder) : x.timesTenPower y = .ok (x.shift n) := by
  have range : (maxOrder : Int) ≤ greatestExponent := by decide
  have range' : leastExponent ≤ -(maxOrder : Int) := by decide
  rw [timesTenPower, toInt64?_eq_some held value (by omega) (by omega)]
  exact if_pos bounded

namespace Spelling
variable {spelling : Spelling} {part : Bool × List Char}

def withExponent (spelling : Spelling) (part : Bool × List Char) : Spelling :=
  { spelling with exponent := some part }

/-- The places by which a typed exponent shifts a number. -/
def places (part : Bool × List Char) : Int := withSign part.1 (digitsValue part.2)

theorem valid_withExponent (valid : spelling.Valid) (digits : part.2 ≠ [] ∧ Digits part.2) :
    (spelling.withExponent part).Valid where
  whole := valid.whole
  fraction := valid.fraction
  some_digit := valid.some_digit
  exponent := by
    rintro _ ⟨⟩
    exact digits

section Bare
variable (bare : spelling.exponent = none)
include bare

theorem power_of_bare : spelling.power = 0 := by
  rw [power, bare]
  rfl

theorem text_withExponent :
    (spelling.withExponent part).text = spelling.text ++ exponentText (some part) := by
  rw [text, text, bare, exponentText, List.append_nil]
  rfl

/-- An exponent typed after a number shifts the number that was read without it. -/
theorem value_withExponent (valid : spelling.Valid)
    (short : (spelling.figures : Int) + 2 * maxOrder ≤ greatestExponent) :
    (spelling.withExponent part).literal.value = spelling.literal.value.shift (places part) := by
  have power := power_of_bare bare
  obtain ⟨least, most⟩ := exponent_bounds valid (by rw [power]; decide) short
  rw [value_literal, value_literal, shift_ofParts least most, power, zero_sub, add_comm]
  rfl

theorem number_withExponent :
    roundSignificant (spelling.withExponent part).number =
      roundSignificant spelling.number * 10 ^ places part := by
  rw [number_eq, number_eq, power_of_bare bare, ← roundSignificant_shift, zero_sub, add_comm]
  rfl

theorem parse_of_bare (valid : spelling.Valid) :
    parse spelling.text = .ok spelling.literal.value := by
  apply parse_text_spelling (wellFormed_literal_iff.2 valid)
  rw [exponentSize_literal, power_of_bare bare]
  exact Nat.zero_le _

variable (valid : spelling.Valid)
  (short : (spelling.figures : Int) + 2 * maxOrder ≤ greatestExponent)
  (digits : part.2 ≠ [] ∧ Digits part.2) (bounded : digitsValue part.2 ≤ maxOrder)
include valid short digits bounded

theorem parse_withExponent : parse (spelling.text ++ exponentText (some part)) =
    .ok (spelling.literal.value.shift (places part)) := by
  have continued := valid_withExponent valid digits
  rw [← text_withExponent bare, ← value_withExponent bare valid short]
  apply parse_text_spelling (wellFormed_literal_iff.2 continued)
  rw [exponentSize_literal]
  exact (natAbs_withSign part.1 _).trans_le bounded

theorem toRat_shift : (spelling.literal.value.shift (places part)).toRat =
    roundSignificant spelling.number * 10 ^ places part := by
  have continued := valid_withExponent valid digits
  have few : (spelling.withExponent part).power.natAbs ≤ maxOrder :=
    (natAbs_withSign part.1 _).trans_le bounded
  rw [← number_withExponent bare, ← value_withExponent bare valid short]
  exact toRat_value continued few short

end Bare

end Spelling

/-- A run of digits that is no greater than the greatest order is read without rounding. -/
theorem parse_digits {size : List Char} (nonempty : size ≠ []) (digits : Digits size)
    (bounded : digitsValue size ≤ maxOrder) :
    ∃ y : Decimal, parse size = .ok y ∧ y.Held ∧ y.toRat = digitsValue size := by
  have valid : (⟨false, size, none, none⟩ : Spelling).Valid :=
    ⟨digits, nofun, .inl nonempty, nofun⟩
  have text : (⟨false, size, none, none⟩ : Spelling).text = size := by
    simp [Spelling.text, Spelling.exponentText, Display.Numeral.minus, Display.Numeral.fractionText]
  have value : (⟨false, size, none, none⟩ : Spelling).literal.value =
      ofParts (digitsValue size) 0 := by
    rw [Spelling.value_literal]
    show ofParts (digitsValue (size ++ [])) _ = _
    rw [List.append_nil]
    rfl
  have read := Spelling.parse_of_bare rfl valid
  have few : digitCount (digitsValue size) ≤ 16 :=
    digitCount_le (by decide) (bounded.trans_lt (by decide))
  have count : digitCount (digitsValue size) ≤ precision := few.trans (by decide)
  rw [text, value] at read
  refine ⟨_, read, held_ofParts _ _, ?_⟩
  rw [toRat_ofParts_of_short count (by decide) (by decide), zpow_zero, mul_one]

end ScientificCalculator.Decimal
