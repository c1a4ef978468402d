import ScientificCalculator.Decimal.Printer
import ScientificCalculator.Proofs.Decimal.Figures
import ScientificCalculator.Proofs.Decimal.Order
import ScientificCalculator.Proofs.Decimal.Spelling

/-!
The full text of a decimal is read back as this decimal. Each way to write it, as an integer, with a
point among or before the digits, or with an exponent, spells the number out exactly, and a
canonical number is its own rounding.
-/

namespace ScientificCalculator

namespace Decimal

open Display.Numeral (fractionText)

/-- A text without a sign that spells the number, with an exponent that may be typed. -/
def Spells (text : List Char) (q : ℚ) : Prop :=
  ∃ spelling : Spelling, spelling.literal.WellFormed ∧ spelling.literal.exponentSize ≤ maxOrder ∧
    spelling.negative = false ∧ spelling.text = text ∧ spelling.value = q

variable {x : Decimal} {text digits : List Char} {q : ℚ}

/-- With a minus sign the text spells the opposite number. -/
theorem Spells.minus (spells : Spells text q) :
    ∃ spelling : Spelling, spelling.literal.WellFormed ∧
      spelling.literal.exponentSize ≤ maxOrder ∧ spelling.text = '-' :: text ∧
      spelling.value = -q := by
  obtain ⟨⟨_, whole, fraction, exponent⟩, wellFormed, bounded, rfl, rfl, rfl⟩ := spells
  refine ⟨⟨true, whole, fraction, exponent⟩, wellFormed, bounded, rfl, ?_⟩
  show ((-(_ : Int) : Int) : ℚ) * _ = -(((_ : Int) : ℚ) * _)
  rw [Int.cast_neg, neg_mul]
  rfl

/-- What spells the magnitude of a decimal is read as this decimal, once the sign stands before
it. -/
theorem Spells.parse_signed (spells : Spells text |x.toRat|) (held : x.Held) :
    parse (if x.IsNegative then '-' :: text else text) = .ok x := by
  split_ifs with negative
  · obtain ⟨spelling, wellFormed, bounded, written, value⟩ := spells.minus
    rw [abs_of_neg (toRat_neg_iff.2 negative), neg_neg] at value
    rw [← written]
    exact Spelling.parse_text_of_value wellFormed bounded held value
  · obtain ⟨spelling, wellFormed, bounded, -, written, value⟩ := spells
    rw [abs_of_nonneg (not_lt.1 (mt toRat_neg_iff.1 negative))] at value
    rw [← written]
    exact Spelling.parse_text_of_value wellFormed bounded held value

/-- The sign and the digits of an exponent. -/
def signedDigits (n : Int) : Bool × List Char := (decide (n < 0), decimalDigits n.natAbs)

theorem intText_eq (n : Int) :
    intText n = Display.Numeral.minus (signedDigits n).1 ++ (signedDigits n).2 := by
  rw [intText, signedDigits]
  split_ifs with negative
  · rw [decide_eq_true negative]
    rfl
  · rw [decide_eq_false negative]
    rfl

theorem withSign_signedDigits (n : Int) :
    withSign (signedDigits n).1 (digitsValue (signedDigits n).2) = n := by
  rw [signedDigits, digitsValue_decimalDigits, withSign]
  simp only [decide_eq_true_eq]
  omega

/-- Digits before the point, after a point if there is one, and the power of ten that follows. -/
theorem spells_of_parts (whole : List Char) (fraction : Option (List Char)) (power : Option Int)
    (all : Digits whole) (nonempty : whole ≠ []) (all' : ∀ part ∈ fraction, Digits part)
    (bounded : (power.getD 0).natAbs ≤ maxOrder)
    (written : whole ++ fractionText fraction ++ Spelling.exponentText (power.map signedDigits) =
      text)
    (value : (digitsValue (whole ++ fraction.getD []) : ℚ) *
      10 ^ (power.getD 0 - (fraction.getD []).length) = q) : Spells text q := by
  have digits : Digits (fraction.getD []) := by
    cases fraction with
    | none => exact nofun
    | some part => exact all' part rfl
  refine ⟨⟨false, whole, fraction, power.map signedDigits⟩, ?_⟩
  cases power with
  | none => exact ⟨⟨.inl nonempty, all, digits, trivial⟩, Nat.zero_le _, rfl, written, value⟩
  | some n =>
    have size : digitsValue (signedDigits n).2 = n.natAbs := digitsValue_decimalDigits _
    have spelled : (signedDigits n).2 ≠ [] ∧ Digits (signedDigits n).2 :=
      ⟨decimalDigits_ne_nil _, digits_decimalDigits _⟩
    have typed : Literal.typedExponent ⟨false, whole, fraction.getD [], some (signedDigits n)⟩ = n :=
      withSign_signedDigits n
    refine ⟨⟨.inl nonempty, all, digits, spelled⟩, size.trans_le bounded, rfl, written, ?_⟩
    show ((digitsValue _ : Int) : ℚ) * 10 ^ (Literal.typedExponent _ - _) = q
    rw [Spelling.literal, Option.map_some, typed, Int.cast_natCast]
    exact value

theorem spells_integer (all : Digits digits) (nonempty : digits ≠ []) (zeros : Nat) :
    Spells (digits ++ List.replicate zeros '0') (digitsValue digits * 10 ^ zeros) := by
  refine spells_of_parts (digits ++ List.replicate zeros '0') none none
    (all.append (.replicate_zero zeros)) (by simp [nonempty]) nofun (Nat.zero_le _)
    (by simp [fractionText, Spelling.exponentText]) ?_
  rw [Option.getD_none, Option.getD_none, List.append_nil, digitsValue_append_zeros, Nat.cast_mul,
    natCast_tenTo]
  simp

/-- With a point inside the digits, or with zeros between the point and them. -/
theorem spells_pointText (all : Digits digits) (places : Nat) :
    Spells (pointText digits places) (digitsValue digits * 10 ^ (-places : Int)) := by
  rw [pointText]
  split_ifs with inside
  · have count : (digits.drop (digits.length - places)).length = places := by
      rw [List.length_drop]
      omega
    have nonempty : digits.take (digits.length - places) ≠ [] := by
      apply List.ne_nil_of_length_pos
      rw [List.length_take]
      omega
    refine spells_of_parts _ (some (digits.drop (digits.length - places))) none
      (fun c member => all c (List.mem_of_mem_take member)) nonempty ?_ (Nat.zero_le _)
      (by simp [fractionText, Spelling.exponentText]) ?_
    · rintro part found
      cases found
      exact fun c member => all c (List.mem_of_mem_drop member)
    · rw [Option.getD_some, List.take_append_drop, count, Option.getD_none, zero_sub]
  · have zeros : digitsValue (['0'] ++ (List.replicate (places - digits.length) '0' ++ digits)) =
        digitsValue digits := by
      rw [← List.append_assoc]
      exact digitsValue_zeros_append digits (places - digits.length + 1)
    refine spells_of_parts ['0'] (some (List.replicate (places - digits.length) '0' ++ digits)) none
      (by decide) (by decide) ?_ (Nat.zero_le _) (by simp [fractionText, Spelling.exponentText]) ?_
    · rintro part found
      cases found
      exact Digits.append (.replicate_zero _) all
    · rw [Option.getD_some, zeros, List.length_append, List.length_replicate,
        Nat.sub_add_cancel (by omega), Option.getD_none, zero_sub]

theorem spells_exponentText (all : Digits digits) (nonempty : digits ≠ []) {order : Int}
    (bounded : order.natAbs ≤ maxOrder) :
    Spells (exponentText digits order)
      (digitsValue digits * 10 ^ (order - (digits.length - 1 : Nat))) := by
  unfold exponentText
  split
  · exact absurd rfl nonempty
  · refine spells_of_parts _ none (some order) all nonempty nofun bounded ?_ rfl
    rw [intText_eq]
    rfl
  · rename_i digit rest _
    refine spells_of_parts [digit] (some rest) (some order) ?_ (List.cons_ne_nil _ _) ?_ bounded ?_
      rfl
    · exact fun c member => all c (by rw [List.mem_singleton.1 member]; exact List.mem_cons_self)
    · rintro part found
      cases found
      exact fun c member => all c (List.mem_cons_of_mem _ member)
    · rw [intText_eq]
      simp [fractionText, Spelling.exponentText]

/-- What the text of a positive number spells. -/
theorem spells_magnitudeText (bounded : x.firstPlace.natAbs ≤ maxOrder) :
    Spells x.magnitudeText (x.mantissa.natAbs * 10 ^ x.exponent) := by
  have all := digits_decimalDigits x.mantissa.natAbs
  have nonempty := decimalDigits_ne_nil x.mantissa.natAbs
  have value := digitsValue_decimalDigits x.mantissa.natAbs
  have digits := digitCount_pos x.mantissa.natAbs
  have order : x.exponent + (decimalDigits x.mantissa.natAbs).length - 1 = x.firstPlace := by
    rw [length_decimalDigits, firstPlace]
    omega
  simp only [magnitudeText, order]
  split
  · have spelled := spells_integer all nonempty x.exponent.toNat
    rwa [value, ← zpow_natCast, Int.toNat_of_nonneg (by omega)] at spelled
  · split
    · have spelled := spells_pointText all x.exponent.natAbs
      rwa [value, show (-x.exponent.natAbs : Int) = x.exponent by omega] at spelled
    · have spelled := spells_exponentText all nonempty bounded
      rwa [value, length_decimalDigits, firstPlace, show ((digitCount x.mantissa.natAbs : Int) - 1 +
        x.exponent - (digitCount x.mantissa.natAbs - 1 : Nat)) = x.exponent by omega] at spelled

theorem held_of_firstPlace (canonical : x.Canonical) (bounded : x.firstPlace.natAbs ≤ maxOrder) :
    x.Held := by
  have few := digitCount_of_canonical canonical
  have digits := digitCount_pos x.mantissa.natAbs
  simp only [firstPlace, maxOrder, precision] at *
  refine ⟨canonical, ?_, ?_⟩
  · simp only [leastExponent]
    omega
  · simp only [greatestExponent]
    omega

/-- Within the orders that may be typed, the text of a number is read as this number. -/
theorem parse_text (canonical : x.Canonical) (orders : x.order.natAbs ≤ 10 ^ 15) :
    parse x.text = .ok x := by
  by_cases zero : x.mantissa = 0
  · rw [show x = Decimal.zero from Decimal.ext zero (exponent_of_canonical canonical zero)]
    rfl
  · have bounded : x.firstPlace.natAbs ≤ maxOrder := by
      rw [order_eq zero, leadingOrder, saturate] at orders
      simp only [firstPlace, maxOrder, leastExponent, greatestExponent] at *
      omega
    have spelled := spells_magnitudeText bounded
    rw [← abs_toRat] at spelled
    rw [Decimal.text, if_neg (show ¬ x.IsZero from zero)]
    exact spelled.parse_signed (held_of_firstPlace canonical bounded)

/-- The greatest order that may be typed, and a fraction with zeros before its digits. -/
theorem parse_text_greatest_order :
    parse (Decimal.text ⟨-123, 999999999999998⟩) = .ok ⟨-123, 999999999999998⟩ ∧
      parse (Decimal.text ⟨305, -22⟩) = .ok ⟨305, -22⟩ :=
  ⟨parse_text (by decide +kernel) (by decide +kernel),
    parse_text (by decide +kernel) (by decide +kernel)⟩

end Decimal

end ScientificCalculator
