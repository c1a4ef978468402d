import ScientificCalculator.Proofs.Display.Placement

/-!
The writings of a number with a chosen number of digits. Each denotes the number rounded to these
digits, and its length and its significant figures are those of the rounded number.
-/

namespace ScientificCalculator

namespace Display
open Decimal
variable {x : Decimal} {layout : Layout} {count : Nat}

/-- No digits are written like one. -/
theorem render_no_digits (layout : Layout) (x : Decimal) : render layout x 0 = render layout x 1 :=
  rfl

theorem render_zero (zero : x.mantissa = 0) : render layout x count = ⟨['0', '.', '0'], 0⟩ :=
  if_pos zero

theorem dropPointZero_length_le (text : List Char) : (dropPointZero text).length ≤ text.length := by
  unfold dropPointZero
  split
  · rename_i rest same
    have length := congrArg List.length same
    rw [List.length_reverse, List.length_cons, List.length_cons] at length
    rw [List.length_reverse]
    omega
  · exact Nat.le_refl _

theorem length_shortened_le (rendering : Rendering) :
    rendering.shortened.text.length ≤ rendering.text.length := by
  rw [Rendering.text, Rendering.text, List.length_append, List.length_append]
  exact Nat.add_le_add_right (dropPointZero_length_le rendering.mantissa) _

theorem length_exponentMark {exponent : Int} (nonzero : exponent ≠ 0) :
    (exponentMark exponent).length = digitCount exponent.natAbs + 2 := by
  rw [exponentMark, if_neg nonzero, List.length_cons, List.length_cons, length_decimalDigits]

/-- With one digit before the point, the digits that count are those after the zeros. -/
theorem significantFigures_of_placed {placed : Placed} (zeros : Nat) {n : Nat} (pos : 0 < n)
    (whole : placed.whole = 1)
    (digits : placed.digits = List.replicate zeros '0' ++ decimalDigits n) :
    significantFigures placed.rendering.text = digitCount n ∧
      significantFigures placed.rendering.shortened.text = digitCount n := by
  have atLeast : placed.whole ≤ placed.digits.length := by
    have count := digitCount_pos n
    rw [whole, digits, List.length_append, length_decimalDigits]
    omega
  have leading : ∀ c ∈ List.replicate zeros '0', decide (c = '0') = true := fun c member =>
    decide_eq_true (List.eq_of_mem_replicate member)
  have counted : (placed.wholeDigits ++ placed.fractionDigits).dropWhile (· = '0') =
      decimalDigits n := by
    rw [placed.wholeDigits_append_fractionDigits, Nat.sub_eq_zero_of_le atLeast,
      List.replicate_zero, List.append_nil, digits, List.dropWhile_append_of_pos leading]
    cases first : decimalDigits n with
    | nil => rfl
    | cons c rest =>
      have nonzero := head?_decimalDigits pos
      rw [first, List.head?_cons] at nonzero
      exact List.dropWhile_cons_of_neg fun zero => nonzero (congrArg some (of_decide_eq_true zero))
  obtain ⟨full, short⟩ := placed.significantFigures_text
  rw [full, short, counted, length_decimalDigits]
  exact ⟨rfl, rfl⟩

section Nonzero
variable (nonzero : x.mantissa ≠ 0) (few : 0 < count)

/-- The rounded number with an exponent. -/
def scientificPlaced : Placed := .scientific (x.rounded count) (not_dvd_mantissa_rounded nonzero few)

/-- The rounded number without an exponent. -/
def positionalPlaced : Placed := .positional (x.rounded count) (not_dvd_mantissa_rounded nonzero few)

variable (unlimited : x.leadingOrder = x.firstPlace)
include nonzero few unlimited

theorem render_of_scientific
    (layoutIs : layout.positional count (x.rounded count).firstPlace = false) :
    render layout x count = (scientificPlaced nonzero few).rendering := by
  have enough : (scientificPlaced nonzero few).whole ≤ (scientificPlaced nonzero few).digits.length +
      (count - (x.rounded count).figures) := by
    have digits : (scientificPlaced nonzero few).digits.length = (x.rounded count).figures :=
      length_decimalDigits _
    have most := figures_rounded_le nonzero few
    show 1 ≤ _
    omega
  rw [render, if_neg (show ¬ x.IsZero from nonzero), leadingDigits_eq nonzero few unlimited]
  simp only [layoutIs, Bool.false_eq_true, if_false]
  exact congrArg (Rendering.mk · _) (withPoint_append_zeros (scientificPlaced nonzero few) enough)

theorem render_of_positional
    (layoutIs : layout.positional count (x.rounded count).firstPlace = true) :
    render layout x count = (positionalPlaced nonzero few).rendering := by
  have most := figures_rounded_le nonzero few
  have below : (x.rounded count).firstPlace < count := by
    cases layout with
    | scientific => cases layoutIs
    | automatic =>
      have bounds := of_decide_eq_true layoutIs
      omega
  have digits : (positionalPlaced nonzero few).digits.length =
      (-(x.rounded count).firstPlace).toNat + (x.rounded count).figures :=
    Placed.length_positional _ _
  have whole : (positionalPlaced nonzero few).whole =
    (x.rounded count).firstPlace.toNat + 1 := rfl
  have written : withPoint ((positionalPlaced nonzero few).digits ++
        List.replicate (count - (x.rounded count).figures) '0') (positionalPlaced nonzero few).whole =
      (positionalPlaced nonzero few).rendering.mantissa := withPoint_append_zeros _ (by omega)
  rw [render, if_neg (show ¬ x.IsZero from nonzero), leadingDigits_eq nonzero few unlimited]
  simp only [layoutIs, if_true]
  split
  · rename_i negative
    have zeros : (x.rounded count).firstPlace.natAbs = (-(x.rounded count).firstPlace).toNat := by
      omega
    have first : (x.rounded count).firstPlace.toNat + 1 = 1 := by omega
    rw [whole, first] at written
    rw [zeros, ← List.append_assoc]
    exact congrArg (Rendering.mk · _) written
  · rename_i natural
    have zeros : (-(x.rounded count).firstPlace).toNat = 0 := by omega
    have first : ((x.rounded count).firstPlace + 1).toNat = (x.rounded count).firstPlace.toNat + 1 :=
      by omega
    have unled : (positionalPlaced nonzero few).digits =
        decimalDigits (x.rounded count).mantissa.natAbs := by
      show List.replicate (-(x.rounded count).firstPlace).toNat '0' ++ _ = _
      rw [zeros]
      rfl
    rw [unled, whole] at written
    rw [first]
    exact congrArg (Rendering.mk · _) written

/-- The automatic layout is without an exponent exactly where the first place allows it. -/
theorem exponent_automatic_eq_zero_iff : (render .automatic x count).exponent = 0 ↔
    Layout.automatic.positional count (x.rounded count).firstPlace = true := by
  constructor
  · intro none
    by_contra exponential
    have layoutIs := Bool.eq_false_of_not_eq_true exponential
    rw [render_of_scientific nonzero few unlimited layoutIs] at none
    have place : (x.rounded count).firstPlace = 0 := none
    rw [place] at exponential
    exact exponential (decide_eq_true ⟨by omega, by omega⟩)
  · intro layoutIs
    rw [render_of_positional nonzero few unlimited layoutIs]
    rfl

theorem denotes_render_of_nonzero (layout : Layout) :
    Denotes (render layout x count).text (x.rounded count).toRat ∧
      Denotes (render layout x count).shortened.text (x.rounded count).toRat := by
  have magnitude : |(x.rounded count).toRat| = (x.rounded count).toRat :=
    abs_of_nonneg (mul_nonneg (Int.cast_nonneg (mantissa_rounded_pos nonzero few).le)
      (ten_zpow_pos _).le)
  cases layoutIs : layout.positional count (x.rounded count).firstPlace with
  | true =>
    have value : (positionalPlaced nonzero few).value = (x.rounded count).toRat :=
      (Placed.value_positional _ _).trans magnitude
    rw [render_of_positional nonzero few unlimited layoutIs, ← value]
    exact ⟨Placed.denotes_rendering _, Placed.denotes_shortened _⟩
  | false =>
    have value : (scientificPlaced nonzero few).value = (x.rounded count).toRat :=
      (Placed.value_scientific _ _).trans magnitude
    rw [render_of_scientific nonzero few unlimited layoutIs, ← value]
    exact ⟨Placed.denotes_rendering _, Placed.denotes_shortened _⟩

theorem render_scientific : render .scientific x count = (scientificPlaced nonzero few).rendering :=
  render_of_scientific nonzero few unlimited rfl

/-- The writing with an exponent depends only on the rounded number. -/
theorem render_scientific_congr {other : Nat} (few' : 0 < other)
    (same : x.rounded other = x.rounded count) :
    render .scientific x other = render .scientific x count := by
  rw [render_scientific nonzero few unlimited, render_scientific nonzero few' unlimited]
  simp only [scientificPlaced, same]

/-- The shortened length of the writing with an exponent. -/
theorem length_scientific : (render .scientific x count).shortened.text.length =
    (if (x.rounded count).figures ≤ 1 then 1 else (x.rounded count).figures + 1) +
      (exponentMark (x.rounded count).firstPlace).length := by
  rw [render_scientific nonzero few unlimited, Placed.length_shortened, scientificPlaced,
    Placed.length_scientific]
  rfl

/-- Nothing is left out of a text with several figures. -/
theorem shortened_scientific (many : 1 < (x.rounded count).figures) :
    (render .scientific x count).shortened = render .scientific x count := by
  rw [render_scientific nonzero few unlimited]
  apply Placed.shortened_of_lt
  rw [scientificPlaced, Placed.length_scientific]
  exact many

theorem significantFigures_scientific :
    significantFigures (render .scientific x count).text = (x.rounded count).figures ∧
      significantFigures (render .scientific x count).shortened.text =
        (x.rounded count).figures := by
  have pos : 0 < (x.rounded count).mantissa.natAbs :=
    Int.natAbs_pos.2 (mantissa_rounded_pos nonzero few).ne'
  rw [render_scientific nonzero few unlimited]
  exact significantFigures_of_placed 0 pos rfl rfl

variable (positional : (render .automatic x count).exponent = 0)
include positional

theorem render_positional : render .automatic x count = (positionalPlaced nonzero few).rendering :=
  render_of_positional nonzero few unlimited
    ((exponent_automatic_eq_zero_iff nonzero few unlimited).1 positional)

/-- The shortened length of the writing without an exponent. -/
theorem length_positional : (render .automatic x count).shortened.text.length =
    if (-(x.rounded count).firstPlace).toNat + (x.rounded count).figures ≤
        (x.rounded count).firstPlace.toNat + 1 then
      (x.rounded count).firstPlace.toNat + 1
    else (-(x.rounded count).firstPlace).toNat + (x.rounded count).figures + 1 := by
  rw [render_positional nonzero few unlimited positional, Placed.length_shortened, positionalPlaced,
    Placed.length_positional]
  rfl

theorem significantFigures_positional (fraction : (x.rounded count).firstPlace ≤ 0) :
    significantFigures (render .automatic x count).text = (x.rounded count).figures ∧
      significantFigures (render .automatic x count).shortened.text =
        (x.rounded count).figures := by
  have pos : 0 < (x.rounded count).mantissa.natAbs :=
    Int.natAbs_pos.2 (mantissa_rounded_pos nonzero few).ne'
  have whole : (positionalPlaced nonzero few).whole = 1 := by
    show (x.rounded count).firstPlace.toNat + 1 = 1
    omega
  rw [render_positional nonzero few unlimited positional]
  exact significantFigures_of_placed _ pos whole rfl

end Nonzero

theorem denotes_zero : Denotes ['0', '.', '0'] 0 ∧ Denotes ['0'] 0 := by
  have value (fraction : Option (List Char)) (none : digitsValue (['0'] ++ fraction.getD []) = 0) :
      (⟨false, ['0'], fraction, .none⟩ : Numeral).value = 0 := by
    rw [Numeral.value, none]
    exact (mul_eq_zero_of_left Int.cast_zero _)
  have wellFormed (fraction : Option (List Char))
      (after : ∀ digits ∈ fraction, digits ≠ [] ∧ Digits digits) :
      (⟨false, ['0'], fraction, .none⟩ : Numeral).WellFormed := by
    have whole : ['0'] ≠ [] ∧ Digits ['0'] := by decide
    refine ⟨whole, after, fun part member => ?_⟩
    cases member
  constructor
  · exact ⟨_, wellFormed (some ['0']) (by decide), rfl, rfl, value _ (by decide)⟩
  · exact ⟨_, wellFormed none (by decide), rfl, rfl, value _ (by decide)⟩

/-- The texts with `count` digits denote the number rounded to them. -/
theorem denotes_render (few : 0 < count) (unlimited : x.leadingOrder = x.firstPlace)
    (layout : Layout) :
    Denotes (render layout x count).text (roundTo count |x.toRat|) ∧
      Denotes (render layout x count).shortened.text (roundTo count |x.toRat|) := by
  by_cases zero : x.mantissa = 0
  · have value : roundTo count |x.toRat| = 0 := by
      rw [toRat_eq_zero_iff.2 zero, abs_zero, roundTo_zero]
    rw [render_zero zero, value]
    exact denotes_zero
  · rw [← toRat_rounded zero]
    exact denotes_render_of_nonzero zero few unlimited layout

end Display

end ScientificCalculator
