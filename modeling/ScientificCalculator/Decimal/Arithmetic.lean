import ScientificCalculator.Decimal.Basic

/-!
Arithmetic of decimals. Each operation rounds its exact result once to sixty digits, except that a
quotient is first taken to at least sixty-five digits. The order of two numbers is the sign of their
difference.
-/

namespace ScientificCalculator.Decimal

/-- The sum over the common exponent. A term whose first digit stands more than `precision + 2`
places below that of the other is lost in the rounding. -/
def add (x y : Decimal) : Decimal :=
  if x.IsZero then y
  else if y.IsZero then x
  else if (precision : Int) + 2 < saturate (x.leadingOrder - y.leadingOrder) then x
  else if (precision : Int) + 2 < saturate (y.leadingOrder - x.leadingOrder) then y
  else
    let common := min x.exponent y.exponent
    ofParts (x.mantissa * tenTo (x.exponent - common).toNat +
      y.mantissa * tenTo (y.exponent - common).toNat) common

instance : Add Decimal := ⟨add⟩

def sub (x y : Decimal) : Decimal := x + -y

instance : Sub Decimal := ⟨sub⟩

def mul (x y : Decimal) : Decimal :=
  ofParts (x.mantissa * y.mantissa) (saturate (x.exponent + y.exponent))

instance : Mul Decimal := ⟨mul⟩

/-- The digits added to the dividend so that the integer quotient has five guard digits. -/
def quotientDigits (x y : Decimal) : Nat :=
  precision + 5 + digitCount y.mantissa.natAbs - digitCount x.mantissa.natAbs

def div? (x y : Decimal) : Option Decimal :=
  if y.IsZero then none
  else if x.IsZero then some zero
  else
    let added := quotientDigits x y
    let quotient := roundDiv (x.mantissa * tenTo added) y.mantissa.natAbs
    some (ofParts (y.mantissa.sign * quotient)
      (saturate (saturate (x.exponent - y.exponent) - added)))

def inverse? (x : Decimal) : Option Decimal := one.div? x

/-- The order of two numbers, read from the sign of their difference. -/
def comparison (x y : Decimal) : Ordering := compare (x - y).mantissa 0

instance : Ord Decimal := ⟨comparison⟩

instance : LT Decimal := ⟨fun x y => compare x y = .lt⟩

instance : LE Decimal := ⟨fun x y => compare x y ≠ .gt⟩

instance (x y : Decimal) : Decidable (x < y) := inferInstanceAs (Decidable (compare x y = .lt))

instance (x y : Decimal) : Decidable (x ≤ y) := inferInstanceAs (Decidable (compare x y ≠ .gt))

end ScientificCalculator.Decimal
