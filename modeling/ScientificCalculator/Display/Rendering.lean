import ScientificCalculator.Decimal.Basic

/-!
The writing of a magnitude with a chosen number of significant digits: positionally where its order
allows, otherwise with an exponent. Final zeros are left out, but one digit stays after the point.
-/

namespace ScientificCalculator.Display

inductive Layout where
  | automatic
  | scientific
  deriving DecidableEq

/-- With `count` digits, integers of at most that many digits are positional, and fractions down to
the fifth place or to a third of the digits, whichever reaches further. -/
def Layout.positional (layout : Layout) (count : Nat) (order : Int) : Bool :=
  match layout with
  | automatic =>
    min (-((max count 1 / 3 : Nat) : Int)) (-5) < order ∧ order < (max count 1 : Nat)
  | scientific => false

/-- A mantissa with a point in it, and the exponent that follows, zero for none. -/
structure Rendering where
  mantissa : List Char
  exponent : Int
  deriving DecidableEq

def exponentMark (exponent : Int) : List Char :=
  if exponent = 0 then []
  else 'e' :: (if 0 < exponent then '+' else '-') :: decimalDigits exponent.natAbs

def Rendering.text (rendering : Rendering) : List Char :=
  rendering.mantissa ++ exponentMark rendering.exponent

def dropFinalZeros (digits : List Char) : List Char :=
  (digits.reverse.dropWhile (· = '0')).reverse

/-- The first `whole` digits, a point, and the others without their final zeros. -/
def withPoint (digits : List Char) (whole : Nat) : List Char :=
  let fraction := dropFinalZeros (digits.drop whole)
  digits.take whole ++ '.' :: (if fraction = [] then ['0'] else fraction)

/-- The magnitude of a number with `count` significant digits, at least one. -/
def render (layout : Layout) (x : Decimal) (count : Nat) : Rendering :=
  if x.IsZero then ⟨['0', '.', '0'], 0⟩
  else
    let (digits, order) := x.leadingDigits count
    if layout.positional count order then
      if order < 0 then ⟨withPoint (List.replicate order.natAbs '0' ++ digits) 1, 0⟩
      else ⟨withPoint digits (order + 1).toNat, 0⟩
    else ⟨withPoint digits 1, order⟩

/-- A text without the point and the zero that end it. -/
def dropPointZero (text : List Char) : List Char :=
  match text.reverse with
  | '0' :: '.' :: rest => rest.reverse
  | _ => text

def Rendering.shortened (rendering : Rendering) : Rendering :=
  ⟨dropPointZero rendering.mantissa, rendering.exponent⟩

/-- The digits that count in a text: those before an exponent, without the zeros that lead them and
without a point and a zero that end them. -/
def significantFigures (text : List Char) : Nat :=
  (((dropPointZero (text.takeWhile (· ≠ 'e'))).filter (· ≠ '.')).dropWhile (· = '0')).length

end ScientificCalculator.Display
