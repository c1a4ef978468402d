import ScientificCalculator.Proofs.Decimal.Order

/-!
The comparison of decimals is that of their values, up to the ends of the exponent range. It needs
no wider exponents: a difference is taken over the common exponent only if the orders are close,
and then the exponents are close as well.
-/

namespace ScientificCalculator

/-- A difference of exponents, if it is in their range. -/
def exponentDifference? (first second : Int) : Option Int :=
  if leastExponent ≤ first - second ∧ first - second ≤ greatestExponent then some (first - second)
  else none

theorem exponentDifference?_of_le {first second : Int} (natural : second ≤ first)
    (small : first - second ≤ greatestExponent) :
    exponentDifference? first second = some (first - second) := by
  have least : leastExponent ≤ 0 := by decide
  rw [exponentDifference?, if_pos ⟨by omega, small⟩]

namespace Decimal
variable {x y z : Decimal}

/-- The sum, if all differences of exponents that are taken for it are in their range. -/
def add? (x y : Decimal) : Option Decimal :=
  if x.IsZero then some y
  else if y.IsZero then some x
  else if (precision : Int) + 2 < saturate (x.leadingOrder - y.leadingOrder) then some x
  else if (precision : Int) + 2 < saturate (y.leadingOrder - x.leadingOrder) then some y
  else do
    let common := min x.exponent y.exponent
    let first ← exponentDifference? x.exponent common
    let second ← exponentDifference? y.exponent common
    return ofParts (x.mantissa * tenTo first.toNat + y.mantissa * tenTo second.toNat) common

/-- The comparison, by a difference for which no exponent leaves its range. -/
def comparison? (x y : Decimal) : Option Ordering :=
  (add? x (-y)).map fun difference => compare difference.mantissa 0

/-- The order stops at the end of the range, but it is never below the exponent nor far above. -/
theorem leadingOrder_near_exponent (held : x.Held) :
    x.exponent ≤ x.leadingOrder ∧ x.leadingOrder < x.exponent + precision := by
  have digits := digitCount_pos x.mantissa.natAbs
  have few := digitCount_of_canonical held.canonical
  have least := held.least
  have greatest := held.greatest
  rw [leadingOrder, saturate]
  omega

theorem exponent_sub_le (first : x.Held) (second : y.Held)
    (near : ¬ (precision : Int) + 2 < saturate (x.leadingOrder - y.leadingOrder)) :
    x.exponent - y.exponent ≤ 2 * precision + 1 := by
  have range : (precision : Int) + 2 < greatestExponent := by decide
  obtain ⟨low, -⟩ := leadingOrder_near_exponent first
  obtain ⟨-, high⟩ := leadingOrder_near_exponent second
  unfold saturate at near
  omega

theorem add?_eq (first : x.Held) (second : y.Held) : add? x y = some (x + y) := by
  show add? x y = some (add x y)
  unfold add? add
  split_ifs with zero zero' absorbed absorbed'
  · rfl
  · rfl
  · rfl
  · rfl
  · have range : (2 * precision + 1 : Int) ≤ greatestExponent := by decide
    have close := exponent_sub_le first second absorbed
    have close' := exponent_sub_le second first absorbed'
    simp only
    rw [exponentDifference?_of_le (min_le_left x.exponent y.exponent) (by omega),
      exponentDifference?_of_le (min_le_right x.exponent y.exponent) (by omega)]
    rfl

theorem comparison?_eq (first : x.Held) (second : y.Held) : comparison? x y = some (compare x y) := by
  rw [comparison?, add?_eq first second.neg]
  rfl

/-- The rounded difference decides as the exact one would. -/
theorem compare_eq_compare_toRat (first : x.Canonical) (second : y.Canonical) :
    compare x y = compare x.toRat y.toRat := by
  have less := lt_iff_toRat_lt first second
  have lessEqual := le_iff_toRat_le first second
  change compare x y = .lt ↔ _ at less
  change compare x y ≠ .gt ↔ _ at lessEqual
  cases found : compare x y with
  | lt => exact (compare_lt_iff_lt.2 (less.1 found)).symm
  | eq =>
    rw [found] at less lessEqual
    exact (compare_eq_iff_eq.2 (le_antisymm (lessEqual.1 nofun) (not_lt.1 (mt less.2 nofun)))).symm
  | gt =>
    rw [found] at lessEqual
    exact (compare_gt_iff_gt.2 (not_le.1 (mt lessEqual.2 (not_not.2 rfl)))).symm

theorem compare_eq_eq_iff (first : x.Canonical) (second : y.Canonical) :
    compare x y = .eq ↔ x = y := by
  rw [compare_eq_compare_toRat first second, compare_eq_iff_eq, eq_iff_toRat_eq first second]

/-- The order of decimals is that of the numbers they stand for, though it is read from a rounded
difference, and no exponent leaves its range on the way. -/
theorem comparison_numeric (first : x.Held) (second : y.Held) (third : z.Held) :
    compare x y = compare x.toRat y.toRat ∧ comparison? x y = some (compare x y) ∧
    compare y x = (compare x y).swap ∧ (compare x y = .eq ↔ x = y) ∧
    (x ≤ y ∨ y ≤ x) ∧ (x ≤ y → y ≤ x → x = y) ∧ (x ≤ y → y ≤ z → x ≤ z) := by
  have orders := le_iff_toRat_le first.canonical second.canonical
  have orders' := le_iff_toRat_le second.canonical first.canonical
  refine ⟨compare_eq_compare_toRat first.canonical second.canonical, comparison?_eq first second,
    ?_, compare_eq_eq_iff first.canonical second.canonical, ?_, ?_, ?_⟩
  · rw [compare_eq_compare_toRat first.canonical second.canonical,
      compare_eq_compare_toRat second.canonical first.canonical]
    exact Std.OrientedOrd.eq_swap
  · rw [orders, orders']
    exact le_total _ _
  · rw [orders, orders', eq_iff_toRat_eq first.canonical second.canonical]
    exact le_antisymm
  · rw [orders, le_iff_toRat_le second.canonical third.canonical,
      le_iff_toRat_le first.canonical third.canonical]
    exact le_trans

/-- At the end of the exponent range the orders of numbers with two and three digits are the same,
since both stop there. -/
theorem comparison_greatest_exponents :
    compare (⟨99, greatestExponent⟩ : Decimal) ⟨123, greatestExponent⟩ =
        compare (⟨99, greatestExponent⟩ : Decimal).toRat
          (⟨123, greatestExponent⟩ : Decimal).toRat ∧
      comparison? ⟨99, greatestExponent⟩ ⟨123, greatestExponent⟩ = some .lt ∧
      (⟨99, greatestExponent⟩ : Decimal) ≤ ⟨124, greatestExponent⟩ := by
  have small : Held ⟨99, greatestExponent⟩ := ⟨by decide +kernel, by decide, by decide⟩
  have middle : Held ⟨123, greatestExponent⟩ := ⟨by decide +kernel, by decide, by decide⟩
  have large : Held ⟨124, greatestExponent⟩ := ⟨by decide +kernel, by decide, by decide⟩
  obtain ⟨numeric, ranged, -, -, -, -, chained⟩ := comparison_numeric small middle large
  exact ⟨numeric, ranged.trans (by decide +kernel), chained (by decide +kernel) (by decide +kernel)⟩

end Decimal

end ScientificCalculator
