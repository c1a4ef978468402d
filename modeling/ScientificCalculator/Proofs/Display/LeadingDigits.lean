import ScientificCalculator.Proofs.Display.Placement

/-!
The leading digits of a decimal. They are the digits of the magnitude rounded to so many significant
figures, and their order is that of the decimal, but for a carry through nines.
-/

namespace ScientificCalculator.Decimal

variable {x : Decimal} {count : Nat}

/-- An order below the greatest exponent has not stopped there. -/
theorem leadingOrder_of_lt (held : x.Held) (away : x.leadingOrder < greatestExponent) :
    x.leadingOrder = x.firstPlace := by
  have digits := digitCount_pos x.mantissa.natAbs
  have least := held.least
  have place : x.exponent + digitCount x.mantissa.natAbs - 1 = x.firstPlace := by
    rw [firstPlace]
    omega
  rw [leadingOrder, place] at away ⊢
  unfold saturate at away ⊢
  omega

section Digits
variable (nonzero : x.mantissa ≠ 0) (few : 0 < count)
include nonzero few

theorem rounded_nonneg : 0 ≤ (x.rounded count).toRat :=
  mul_nonneg (Int.cast_nonneg (mantissa_rounded_pos nonzero few).le) (ten_zpow_pos _).le

theorem length_roundedDigits :
    (decimalDigits (x.rounded count).mantissa.natAbs ++
      List.replicate (count - (x.rounded count).figures) '0').length = count := by
  rw [List.length_append, length_decimalDigits, List.length_replicate]
  exact Nat.add_sub_cancel' (figures_rounded_le nonzero few)

theorem head?_roundedDigits :
    (decimalDigits (x.rounded count).mantissa.natAbs ++
      List.replicate (count - (x.rounded count).figures) '0').head? ≠ some '0' := by
  rw [List.head?_append_of_ne_nil _ (decimalDigits_ne_nil _)]
  exact head?_decimalDigits (Int.natAbs_pos.2 (mantissa_rounded_pos nonzero few).ne')

/-- With the place of the last digit as unit, the digits are the rounded number. -/
theorem digitsValue_rounded :
    (digitsValue (decimalDigits (x.rounded count).mantissa.natAbs ++
        List.replicate (count - (x.rounded count).figures) '0') : ℚ) *
      10 ^ ((x.rounded count).firstPlace - count + 1) = roundTo count |x.toRat| := by
  have fits := figures_rounded_le nonzero few
  have place : (x.rounded count).exponent = (count - (x.rounded count).figures : Nat) +
      ((x.rounded count).firstPlace - count + 1) := by
    rw [firstPlace_eq]
    omega
  rw [digitsValue_append_zeros, digitsValue_decimalDigits, Nat.cast_mul, natCast_tenTo, mul_assoc,
    ← ten_zpow_eq_mul _ place, ← abs_toRat, abs_of_nonneg (rounded_nonneg nonzero few),
    toRat_rounded nonzero]

omit few in
/-- A carry leaves a power of ten. -/
theorem rounded_of_carry (carry : keptFigures x.mantissa.natAbs count = tenTo count) :
    (x.rounded count).mantissa = 1 ∧
      roundTo count |x.toRat| = 10 ^ (x.rounded count).firstPlace := by
  have one : (x.rounded count).mantissa = 1 := by
    rw [rounded, carry, stripped_tenTo]
    rfl
  have place : (x.rounded count).firstPlace = (x.rounded count).exponent := by
    rw [firstPlace, one, Int.natAbs_one, digitCount_of_lt (by decide)]
    omega
  rw [← toRat_rounded nonzero, toRat, one, place, Int.cast_one, one_mul]
  exact ⟨rfl, rfl⟩

end Digits

/-- The leading digits are the magnitude rounded to their number of significant figures. -/
theorem leadingDigits_correctly_rounded (held : x.Held) (nonzero : x.mantissa ≠ 0)
    (few : 0 < count) (away : x.order < greatestExponent) :
    ∃ digits order, x.leadingDigits count = (digits, order) ∧ digits.length = count ∧
      Digits digits ∧ digits.head? ≠ some '0' ∧
      (digitsValue digits : ℚ) * 10 ^ (order - count + 1) = roundTo count |x.toRat| ∧
      (order = x.order ∧ roundTo count |x.toRat| < 10 ^ (x.order + 1) ∨
        order = x.order + 1 ∧ roundTo count |x.toRat| = 10 ^ (x.order + 1) ∧
          digits = '1' :: List.replicate (count - 1) '0') := by
  rw [order_eq nonzero] at away ⊢
  have order := leadingOrder_of_lt held away
  refine ⟨_, _, leadingDigits_eq nonzero few order, length_roundedDigits nonzero few,
    (digits_decimalDigits _).append (.replicate_zero _), head?_roundedDigits nonzero few,
    digitsValue_rounded nonzero few, ?_⟩
  rw [order]
  rcases firstPlace_rounded nonzero few with ⟨same, -⟩ | ⟨next, carry, figure⟩
  · left
    have below := lt_ten_zpow_firstPlace (x.rounded count)
    rw [abs_of_nonneg (rounded_nonneg nonzero few), toRat_rounded nonzero, same] at below
    exact ⟨same, below⟩
  · right
    obtain ⟨one, power⟩ := rounded_of_carry nonzero carry
    rw [next] at power
    refine ⟨next, power, ?_⟩
    rw [one, figure]
    rfl

/-- Sixty nines at the least exponent, rounded to fifty-nine figures, carry into the next order. -/
theorem leadingDigits_nines :
    ∃ digits order, leadingDigits ⟨10 ^ 60 - 1, leastExponent⟩ 59 = (digits, order) ∧
      digits.length = 59 ∧ digits.head? ≠ some '0' ∧
      (digitsValue digits : ℚ) * 10 ^ (order - 59 + 1) =
        roundTo 59 |toRat ⟨10 ^ 60 - 1, leastExponent⟩| := by
  have away : order ⟨10 ^ 60 - 1, leastExponent⟩ < greatestExponent := by
    rw [order_of_written 59 (by decide)]
    decide
  obtain ⟨digits, order, leading, length, -, first, value, -⟩ :=
    leadingDigits_correctly_rounded (held_of_written (by decide)) (by decide) (by decide : 0 < 59)
      away
  exact ⟨digits, order, leading, length, first, value⟩

end ScientificCalculator.Decimal
