import ScientificCalculator.Function.Division
import ScientificCalculator.Function.Exponential

/-!
Powers of decimals. Integer exponents in the 64-bit range go by repeated squaring, all others through
the logarithm of the magnitude. A negative base admits integer exponents only, and the parity of the
exponent gives the sign.
-/

namespace ScientificCalculator.Decimal

/-- The decimal logarithm of the magnitude, estimated from its first seventeen digits. -/
def orderEstimate (x : Decimal) : Float :=
  let (digits, order) := x.leadingDigits 17
  Float.ofInt order + Float.log10 (Float.ofNat (digitsValue digits) / 1e16)

/-- The power of a base is estimated to pass the greatest order. -/
def PowerOverflows (base : Decimal) (n : Int) : Prop :=
  base.orderEstimate * Float.ofInt n > Float.ofNat maxOrder

def PowerUnderflows (base : Decimal) (n : Int) : Prop :=
  base.orderEstimate * Float.ofInt n < -Float.ofNat maxOrder

instance (base : Decimal) (n : Int) : Decidable (PowerOverflows base n) :=
  inferInstanceAs (Decidable (_ > _))

instance (base : Decimal) (n : Int) : Decidable (PowerUnderflows base n) :=
  inferInstanceAs (Decidable (_ < _))

/-- The product of `found` and the power `n` of `base`, by squaring the base and halving `n`. -/
def powerBySquaring (found base : Decimal) (n : Nat) : Decimal :=
  if n = 0 then found
  else powerBySquaring (if n % 2 = 1 then found * base else found) (base * base) (n / 2)
termination_by n
decreasing_by exact Nat.div_lt_self (by omega) (by decide)

def integerPower (base : Decimal) (n : Int) : Except Error Decimal :=
  if PowerOverflows base n then overflow
  else if PowerUnderflows base n then .ok zero
  else
    let result := powerBySquaring one base n.natAbs
    if n < 0 then result.reciprocal else .ok result

/-- An integer that is small enough to be written out and leaves a remainder by two. -/
def IsOdd (x : Decimal) : Prop := ∃ n ∈ x.toInt?, n % 2 ≠ 0

instance (x : Decimal) : Decidable x.IsOdd :=
  match h : x.toInt? with
  | none => isFalse (by simp [IsOdd, h])
  | some n => decidable_of_iff (n % 2 ≠ 0) (by simp [IsOdd, h])

def powerByLogarithm (base exponent : Decimal) : Except Error Decimal := do
  let logarithm ← base.abs.ln
  let magnitude ← (exponent * logarithm).exp
  return if base.IsNegative ∧ exponent.IsOdd then -magnitude else magnitude

def power (base exponent : Decimal) : Except Error Decimal :=
  if exponent.IsZero then .ok one
  else if base.IsZero then
    if exponent.IsNegative then .error .divisionByZero else .ok zero
  else if base.IsNegative ∧ ¬ exponent.IsInteger then
    .error (.domain .fractionalPowerOfNegative)
  else
    match exponent.toInt64? with
    | some n => integerPower base n
    | none => powerByLogarithm base exponent

end ScientificCalculator.Decimal
