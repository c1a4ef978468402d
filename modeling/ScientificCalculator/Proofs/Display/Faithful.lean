import ScientificCalculator.Proofs.Decimal.Order
import ScientificCalculator.Proofs.Display.Glyphs

/-!
What the display shows. A text within a width denotes the number rounded to some of its figures, with
its sign, and zero only for zero, as long as the order of the number can be held.
-/

namespace ScientificCalculator

namespace Display
open Decimal
variable {x : Decimal} {width : Nat} {text : List Char}

/-- The value of a text with the greatest exponent. -/
theorem numberOf_greatestExponent (whole fraction : List Char)
    (before : whole ≠ [] ∧ Digits whole) (after : fraction ≠ [] ∧ Digits fraction) :
    numberOf (whole ++ '.' :: fraction ++ "e+9223372036854775807".toList) =
      digitsValue (whole ++ fraction) * 10 ^ (greatestExponent - fraction.length) := by
  let numeral : Numeral := ⟨false, whole, some fraction, some (false, "9223372036854775807".toList)⟩
  have wellFormed : numeral.WellFormed := by
    refine ⟨before, fun digits member => ?_, fun part member => ?_⟩
    · obtain rfl := Option.mem_some.1 member
      exact after
    · obtain rfl := Option.mem_some.1 member
      decide
  have mark : Numeral.exponentText (some (false, "9223372036854775807".toList)) =
      "e+9223372036854775807".toList := by decide
  have text : numeral.text = whole ++ '.' :: fraction ++ "e+9223372036854775807".toList := by
    rw [← mark]
    rfl
  have power : numeral.power = greatestExponent := by
    show ((digitsValue "9223372036854775807".toList : Nat) : Int) = _
    decide +kernel
  rw [← text, numberOf_text wellFormed, Numeral.value, power]
  rfl

theorem denotes_of_fitMagnitude (held : x.Held) (below : x.firstPlace < greatestExponent)
    (found : fitMagnitude x.abs width = some text) :
    text.length ≤ width ∧ ∃ n, 0 < n ∧ n ≤ width ∧ Denotes text (roundTo n |x.toRat|) := by
  have unlimited := leadingOrder_eq (held_abs held) (by rw [firstPlace_abs]; exact below.le)
  obtain ⟨n, few, le, denotes⟩ := (candidate_of_fitMagnitude unlimited found).denotes unlimited
  rw [toRat_abs, abs_abs] at denotes
  exact ⟨length_of_fitMagnitude found, n, few, le, denotes⟩

/-- The text within a width is written as a number, is no longer than the width, and denotes the
number rounded to between one and `width` figures, a half going away from zero. -/
theorem fit_faithful (held : x.Held) (below : x.firstPlace < greatestExponent)
    (shown : fit x width = .ok text) :
    text.length ≤ width ∧ Written text ∧
      (∃ n, 1 ≤ n ∧ n ≤ width ∧ numberOf text = roundTo n x.toRat) ∧
      (numberOf text = 0 ↔ x.toRat = 0) ∧ (text.head? = some '-' ↔ x.toRat < 0) := by
  rcases fit_cases shown with ⟨negative, body, found, rfl⟩ | ⟨natural, found⟩
  · obtain ⟨length, n, few, le, denotes⟩ := denotes_of_fitMagnitude held below found
    obtain ⟨written, value⟩ := denotes.minus
    have nonempty := List.length_pos_of_ne_nil denotes.head.1
    have sign := toRat_neg_iff.2 negative
    refine ⟨?_, written, ⟨n, few, by omega, ?_⟩, ?_, iff_of_true rfl sign⟩
    · rw [List.length_cons]
      omega
    · rw [value, ← roundTo_neg, abs_of_neg sign, neg_neg]
    · rw [value, neg_eq_zero, roundTo_abs_eq_zero_iff few]
  · obtain ⟨length, n, few, le, denotes⟩ := denotes_of_fitMagnitude held below found
    have sign : ¬ x.toRat < 0 := fun negative => not_lt.2 natural (toRat_neg_iff.1 negative)
    refine ⟨length, denotes.written, ⟨n, few, le, ?_⟩, ?_, iff_of_false denotes.head.2 sign⟩
    · rw [denotes.numberOf_eq, abs_of_nonneg (not_lt.1 sign)]
    · rw [denotes.numberOf_eq, roundTo_abs_eq_zero_iff few]

/-- Five characters leave four for the magnitude of -9.9996, which becomes a ten. -/
theorem fit_carry : fit ⟨-99996, -4⟩ 5 = .ok "-10.0".toList ∧
    "-10.0".toList.length ≤ 5 ∧ Written "-10.0".toList ∧
    (∃ n, 1 ≤ n ∧ n ≤ 5 ∧ numberOf "-10.0".toList = roundTo n (toRat ⟨-99996, -4⟩)) ∧
    (numberOf "-10.0".toList = 0 ↔ toRat ⟨-99996, -4⟩ = 0) ∧
    ("-10.0".toList.head? = some '-' ↔ toRat ⟨-99996, -4⟩ < 0) := by
  have held : Held ⟨-99996, -4⟩ := ⟨by decide +kernel, by decide, by decide⟩
  have below : firstPlace ⟨-99996, -4⟩ < greatestExponent := by decide +kernel
  have shown : fit ⟨-99996, -4⟩ 5 = .ok "-10.0".toList := by with_unfolding_all rfl
  exact ⟨shown, fit_faithful held below shown⟩

/-- An order above the greatest exponent is shown as that exponent: 123 times its power of ten is
shown as 1.23 times it, which is the number rounded to no number of figures. -/
theorem fit_beyond_greatestExponent : Held ⟨123, greatestExponent⟩ ∧
    ∃ text, fit ⟨123, greatestExponent⟩ 30 = .ok text ∧
      ∀ n, 0 < n → numberOf text ≠ roundTo n (toRat ⟨123, greatestExponent⟩) := by
  refine ⟨⟨by decide +kernel, by decide, by decide⟩, "1.23e+9223372036854775807".toList,
    by with_unfolding_all rfl, fun n few same => ?_⟩
  have shown : numberOf "1.23e+9223372036854775807".toList = 123 * 10 ^ (greatestExponent - 2) :=
    numberOf_greatestExponent ['1'] ['2', '3'] (by decide) (by decide)
  have place : firstPlace ⟨123, greatestExponent⟩ = (4 : Nat) + (greatestExponent - 2) := by
    decide +kernel
  have magnitude : |toRat ⟨123, greatestExponent⟩| = toRat ⟨123, greatestExponent⟩ :=
    abs_of_pos (mul_pos (by norm_num) (ten_zpow_pos _))
  have least := ten_zpow_le_roundTo (x := ⟨123, greatestExponent⟩) (by decide) few
  have unit := ten_zpow_pos (greatestExponent - 2)
  rw [magnitude, ← same, shown, place, ten_zpow_eq_mul 4 rfl] at least
  linarith

end Display

end ScientificCalculator
