import Mathlib.Algebra.Group.Int.Even
import ScientificCalculator.Function.Combinatorics
import ScientificCalculator.Function.Power
import ScientificCalculator.Proofs.Decimal.Scaled

/-!
Decimals that are integers. The canonical form makes the sign of the exponent tell them from all
others. An integer is read off a decimal as long as it is not too long to be written out, so wherever
it lies in the signed 64-bit range. Its parity is known beyond that too: the integers that are not
written out end in zeros.
-/

namespace ScientificCalculator.Decimal

variable {x : Decimal} {n : Int}

theorem isInteger_of_toRat_eq (canonical : x.Canonical) (value : x.toRat = n) : x.IsInteger := by
  rw [IsInteger]
  by_cases zero : x.mantissa = 0
  · exact (exponent_of_canonical canonical zero).ge
  · -- otherwise the mantissa would be a multiple of a power of ten
    have whole : (⟨n, 0⟩ : Decimal).toRat = x.toRat := by
      rw [value]
      exact mul_one (n : ℚ)
    exact exponent_le_of_toRat_eq canonical zero whole.symm

theorem intCast_toRat (whole : x.IsInteger) :
    ((x.mantissa * tenTo x.exponent.toNat : Int) : ℚ) = x.toRat := by
  have same := toRat_widen whole
  rw [sub_zero, zpow_zero, mul_one] at same
  exact same.symm

/-- The integer is the mantissa with the zeros that the exponent counts. -/
theorem mantissa_mul_tenTo_eq (canonical : x.Canonical) (value : x.toRat = n) :
    x.mantissa * tenTo x.exponent.toNat = n := by
  have whole := intCast_toRat (isInteger_of_toRat_eq canonical value)
  rw [value] at whole
  exact Int.cast_injective whole

theorem toInt?_of_toRat_eq (canonical : x.Canonical) (value : x.toRat = n) :
    x.toInt? = if x.exponent ≤ maxIntegerExponent then some n else none := by
  have whole := isInteger_of_toRat_eq canonical value
  rw [toInt?, mantissa_mul_tenTo_eq canonical value]
  simp only [whole, true_and]

theorem toRat_of_toInt?_eq_some (read : x.toInt? = some n) : x.toRat = n := by
  rw [toInt?] at read
  split at read
  · rename_i readable
    rw [← Option.some.inj read, intCast_toRat readable.1]
  · cases read

/-- The integers in the signed 64-bit range have nineteen digits. -/
theorem abs_toRat_lt_of_range (value : x.toRat = n) (low : leastExponent ≤ n)
    (high : n ≤ greatestExponent) : |x.toRat| < 10 ^ (19 : Int) := by
  have magnitude : |n| < 10 ^ 19 := by
    rw [abs_lt]
    constructor
    · exact lt_of_lt_of_le (by decide) low
    · exact lt_of_le_of_lt high (by decide)
  rw [value]
  exact_mod_cast magnitude

/-- An integer in the signed 64-bit range is read off the decimal that has its value. -/
theorem toInt64?_eq_some (held : x.Held) (value : x.toRat = n) (low : leastExponent ≤ n)
    (high : n ≤ greatestExponent) : x.toInt64? = some n := by
  have whole := isInteger_of_toRat_eq held.canonical value
  have digits := abs_toRat_lt_of_range value low high
  have order : x.order ≤ 18 :=
    Int.le_of_lt_add_one (order_lt_of_abs_lt held (by decide) (by decide) digits)
  have written : x.exponent ≤ maxIntegerExponent :=
    (exponent_le_of_order_le held (by decide) order (by decide)).trans (by decide)
  rw [toInt64?, if_pos ⟨whole, order⟩, toInt?_of_toRat_eq held.canonical value, if_pos written]
  exact Option.filter_some_pos (decide_eq_true ⟨low, high⟩)

theorem toRat_of_toInt64?_eq_some (read : x.toInt64? = some n) : x.toRat = n := by
  rw [toInt64?] at read
  split at read
  · exact toRat_of_toInt?_eq_some (Option.filter_eq_some_iff.1 read).1
  · cases read

theorem wholeNumber_of_toRat_eq (canonical : x.Canonical) (value : x.toRat = n) :
    x.wholeNumber = if x.exponent ≤ maxIntegerExponent then .ok n
      else .error (.domain .integerTooLarge) := by
  rw [wholeNumber, if_pos (isInteger_of_toRat_eq canonical value),
    toInt?_of_toRat_eq canonical value]
  by_cases written : x.exponent ≤ maxIntegerExponent
  · rw [if_pos written, if_pos written]
  · rw [if_neg written, if_neg written]

/-- A number that is too long to be written out is even, as it is a multiple of ten. -/
theorem isOdd_iff (canonical : x.Canonical) (value : x.toRat = n) : x.IsOdd ↔ Odd n := by
  rw [IsOdd, toInt?_of_toRat_eq canonical value]
  by_cases written : x.exponent ≤ maxIntegerExponent
  · rw [if_pos written, Int.odd_iff]
    simp only [Option.mem_def, Option.some.injEq, exists_eq_left']
    omega
  · rw [if_neg written]
    obtain ⟨zeros, places⟩ : ∃ zeros, x.exponent.toNat = zeros + 1 :=
      ⟨x.exponent.toNat - 1, by omega⟩
    have ten : (10 : Int) ∣ n := by
      rw [← mantissa_mul_tenTo_eq canonical value, places]
      exact (Int.natCast_dvd_natCast.2 (ten_dvd_tenTo_succ zeros)).mul_left _
    rw [Int.odd_iff]
    constructor
    · rintro ⟨_, ⟨⟩, _⟩
    · omega

section Recognition

theorem isInteger_iff (canonical : x.Canonical) : x.IsInteger ↔ ∃ n : Int, x.toRat = n := by
  constructor
  · intro whole
    exact ⟨_, (intCast_toRat whole).symm⟩
  · rintro ⟨n, value⟩
    exact isInteger_of_toRat_eq canonical value

theorem toInt?_eq_some_iff (canonical : x.Canonical) :
    x.toInt? = some n ↔ x.toRat = n ∧ x.exponent ≤ maxIntegerExponent := by
  constructor
  · intro read
    have value := toRat_of_toInt?_eq_some read
    rw [toInt?_of_toRat_eq canonical value] at read
    by_cases written : x.exponent ≤ maxIntegerExponent
    · exact ⟨value, written⟩
    · rw [if_neg written] at read
      cases read
  · rintro ⟨value, written⟩
    rw [toInt?_of_toRat_eq canonical value, if_pos written]

/-- The exponent of an integer with few digits is itself small. -/
theorem held_of_range (canonical : x.Canonical) (value : x.toRat = n) (low : leastExponent ≤ n)
    (high : n ≤ greatestExponent) : x.Held := by
  have whole : 0 ≤ x.exponent := isInteger_of_toRat_eq canonical value
  have small : x.exponent ≤ 19 := by
    by_cases zero : x.mantissa = 0
    · rw [exponent_of_canonical canonical zero]
      decide
    · have place := firstPlace_lt_of_abs_lt zero (abs_toRat_lt_of_range value low high)
      exact (exponent_le_firstPlace x).trans place.le
  exact ⟨canonical, le_trans (by decide) whole, small.trans (by decide)⟩

theorem toInt64?_eq_some_iff (canonical : x.Canonical) :
    x.toInt64? = some n ↔ x.toRat = n ∧ leastExponent ≤ n ∧ n ≤ greatestExponent := by
  constructor
  · intro read
    refine ⟨toRat_of_toInt64?_eq_some read, ?_⟩
    rw [toInt64?] at read
    split at read
    · exact of_decide_eq_true (Option.filter_eq_some_iff.1 read).2
    · cases read
  · rintro ⟨value, low, high⟩
    exact toInt64?_eq_some (held_of_range canonical value low high) value low high

/-- A canonical decimal shows whether it is an integer, and which one it is, as far as integers are
written out. -/
theorem integers_recognised (canonical : x.Canonical) :
    (x.IsInteger ↔ ∃ n : Int, x.toRat = n) ∧
    (∀ n : Int, x.toInt64? = some n ↔ x.toRat = n ∧ -2 ^ 63 ≤ n ∧ n < 2 ^ 63) ∧
    (∀ n : Int, x.toInt? = some n ↔ x.toRat = n ∧ x.exponent ≤ 100000) ∧
    ∀ n : Int, -2 ^ 63 ≤ n → n < 2 ^ 63 → (ofInt n).toInt64? = some n := by
  have range (n : Int) : leastExponent ≤ n ∧ n ≤ greatestExponent ↔ -2 ^ 63 ≤ n ∧ n < 2 ^ 63 := by
    rw [leastExponent, greatestExponent]
    omega
  refine ⟨isInteger_iff canonical, fun n => ?_, fun n => toInt?_eq_some_iff canonical, ?_⟩
  · rw [toInt64?_eq_some_iff canonical, range]
  · intro n low high
    have few : digitCount n.natAbs ≤ 19 :=
      digitCount_le (by decide) (lt_of_le_of_lt (by omega : n.natAbs ≤ 2 ^ 63) (by decide))
    rw [toInt64?_eq_some_iff (canonical_ofInt n), range]
    exact ⟨toRat_ofInt (few.trans (by decide)), low, high⟩

/-- The ends of the signed 64-bit range, and the number after its end. -/
theorem integers_recognised_at_ends :
    toInt64? ⟨-2 ^ 63, 0⟩ = some (-2 ^ 63) ∧ toInt64? ⟨2 ^ 63, 0⟩ ≠ some (2 ^ 63) ∧
      toInt? ⟨2 ^ 63, 0⟩ = some (2 ^ 63) ∧ (ofInt (2 ^ 63 - 1)).toInt64? = some (2 ^ 63 - 1) := by
  have least : Canonical ⟨-2 ^ 63, 0⟩ := (held_of_written (by decide)).canonical
  have beyond : Canonical ⟨2 ^ 63, 0⟩ := (held_of_written (by decide)).canonical
  obtain ⟨-, read, -, read'⟩ := integers_recognised least
  obtain ⟨-, refused, written, -⟩ := integers_recognised beyond
  refine ⟨(read _).2 ⟨?_, by decide, by decide⟩, fun found => ?_, (written _).2 ⟨?_, by decide⟩,
    read' _ (by decide) (by decide)⟩
  · norm_num [toRat]
  · exact absurd ((refused _).1 found).2.2 (by decide)
  · norm_num [toRat]

end Recognition

end ScientificCalculator.Decimal
