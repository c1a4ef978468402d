import ScientificCalculator.Decimal.Digits
import ScientificCalculator.Decimal.Rounding

/-!
Decimal floating-point numbers: an integer mantissa times a power of ten. The mantissa is rounded to
sixty digits and has no final zero, so a value has one written form and equality of forms is
equality of values. Exponents live in the signed 64-bit range and stop at its ends.
-/

namespace ScientificCalculator

/-- The number `mantissa * 10 ^ exponent`. -/
@[ext]
structure Decimal where
  mantissa : Int
  exponent : Int
  deriving DecidableEq

/-- The significant digits that every operation keeps. -/
def precision : Nat := 60

/-- The decimal orders of the calculator's results reach from minus this bound to this bound. -/
def maxOrder : Nat := 1000000000000000

/-- An integer with more final zeros than this is not written out in full. -/
def maxIntegerExponent : Nat := 100000

def leastExponent : Int := -9223372036854775808

def greatestExponent : Int := 9223372036854775807

/-- The nearest exponent that can be held. -/
def saturate (exponent : Int) : Int := max leastExponent (min exponent greatestExponent)

theorem saturate_bounds (exponent : Int) :
    leastExponent ≤ saturate exponent ∧ saturate exponent ≤ greatestExponent := by
  have ends : leastExponent ≤ greatestExponent := by decide
  unfold saturate
  omega

theorem saturate_of_mem {exponent : Int} (low : leastExponent ≤ exponent)
    (high : exponent ≤ greatestExponent) : saturate exponent = exponent := by
  unfold saturate
  omega

/-- An exponent whose sixty-four bits are read with a sign: beyond either end of the range it goes on
from the other one. -/
def wrapped (exponent : Int) : Int := exponent.bmod 18446744073709551616

theorem wrapped_of_mem {exponent : Int} (low : leastExponent ≤ exponent)
    (high : exponent ≤ greatestExponent) : wrapped exponent = exponent := by
  unfold leastExponent at low
  unfold greatestExponent at high
  unfold wrapped
  exact Int.bmod_eq_of_le (by omega) (by omega)

theorem wrapped_natCast {count : Nat} (countable : count ≤ greatestExponent) :
    wrapped count = count := by
  have least : leastExponent ≤ 0 := by decide
  exact wrapped_of_mem (by omega) countable

namespace Decimal

/-- Zero is written in one way; any other mantissa has at most `precision` digits, the last of
which is not zero. -/
def Canonical (x : Decimal) : Prop :=
  if x.mantissa = 0 then x.exponent = 0
  else ¬ (10 : Int) ∣ x.mantissa ∧ digitCount x.mantissa.natAbs ≤ precision

instance (x : Decimal) : Decidable x.Canonical := by
  unfold Canonical
  infer_instance

def zero : Decimal := ⟨0, 0⟩

def one : Decimal := ⟨1, 0⟩

instance : Inhabited Decimal := ⟨zero⟩

def tenPow (exponent : Int) : Decimal := ⟨1, exponent⟩

/-- The number `mantissa * 10 ^ exponent` rounded to `precision` digits, in canonical form. -/
def ofParts (mantissa exponent : Int) : Decimal :=
  if mantissa = 0 then zero
  else
    let dropped := digitCount mantissa.natAbs - precision
    let rounded := roundDiv mantissa (tenTo dropped)
    let zeros := trailingZeros rounded.natAbs
    ⟨rounded.tdiv (tenTo zeros), saturate (exponent + dropped + zeros)⟩

def ofInt (n : Int) : Decimal := ofParts n 0

/-- The number `n / 10 ^ digits`, for a count of digits that is itself an exponent. -/
def ofScaled (n : Int) (digits : Nat) : Decimal := ofParts n (wrapped (-wrapped digits))

/-- The integer nearest to `x * 10 ^ digits`, a half going away from zero, for a count of digits that
is itself an exponent. A number far below a unit is zero without a division. -/
def toScaled (x : Decimal) (digits : Nat) : Int :=
  let places := saturate (x.exponent + wrapped digits)
  if 0 ≤ places then x.mantissa * tenTo places.toNat
  else if digitCount x.mantissa.natAbs + 1 < places.natAbs then 0
  else roundDiv x.mantissa (tenTo places.natAbs)

theorem ofScaled_eq (n : Int) {digits : Nat} (countable : digits ≤ greatestExponent) :
    ofScaled n digits = ofParts n (-digits) := by
  have least : leastExponent = -greatestExponent - 1 := rfl
  rw [ofScaled, wrapped_natCast countable, wrapped_of_mem (by omega) (by omega)]

def IsZero (x : Decimal) : Prop := x.mantissa = 0

def IsNegative (x : Decimal) : Prop := x.mantissa < 0

def IsPositive (x : Decimal) : Prop := 0 < x.mantissa

/-- A canonical number is an integer exactly if its exponent is not negative. -/
def IsInteger (x : Decimal) : Prop := 0 ≤ x.exponent

instance (x : Decimal) : Decidable x.IsZero := inferInstanceAs (Decidable (x.mantissa = 0))

instance (x : Decimal) : Decidable x.IsNegative := inferInstanceAs (Decidable (x.mantissa < 0))

instance (x : Decimal) : Decidable x.IsPositive := inferInstanceAs (Decidable (0 < x.mantissa))

instance (x : Decimal) : Decidable x.IsInteger := inferInstanceAs (Decidable (0 ≤ x.exponent))

def neg (x : Decimal) : Decimal := ⟨-x.mantissa, x.exponent⟩

instance : Neg Decimal := ⟨neg⟩

def abs (x : Decimal) : Decimal := ⟨x.mantissa.natAbs, x.exponent⟩

/-- The power of ten at the first digit of a nonzero number. -/
def leadingOrder (x : Decimal) : Int :=
  saturate (x.exponent + digitCount x.mantissa.natAbs - 1)

def order? (x : Decimal) : Option Int :=
  if x.IsZero then none else some x.leadingOrder

/-- The power of ten at the first digit, zero for zero. -/
def order (x : Decimal) : Int := x.order?.getD 0

/-- The number `x * 10 ^ places`, without rounding. -/
def shift (x : Decimal) (places : Int) : Decimal :=
  if x.IsZero then zero else ⟨x.mantissa, saturate (x.exponent + places)⟩

/-- The value of an integer that is small enough to be written out. -/
def toInt? (x : Decimal) : Option Int :=
  if x.IsInteger ∧ x.exponent ≤ maxIntegerExponent then
    some (x.mantissa * tenTo x.exponent.toNat)
  else none

/-- The value of an integer in the signed 64-bit range. -/
def toInt64? (x : Decimal) : Option Int :=
  if x.IsInteger ∧ x.order ≤ 18 then
    x.toInt?.filter fun n => leastExponent ≤ n ∧ n ≤ greatestExponent
  else none

/-- The first `count` digits (at least one) of the magnitude, rounded and filled up with zeros, and
the power of ten at the first of them. -/
def leadingDigits (x : Decimal) (count : Nat) : List Char × Int :=
  let count := max count 1
  if x.IsZero then (List.replicate count '0', 0)
  else
    let magnitude := x.mantissa.natAbs
    let rounded := roundDivNat magnitude (tenTo (digitCount magnitude - count))
    if count < digitCount rounded then (decimalDigits (rounded / 10), x.leadingOrder + 1)
    else
      (decimalDigits rounded ++ List.replicate (count - digitCount rounded) '0', x.leadingOrder)

end Decimal

end ScientificCalculator
