import ScientificCalculator.Decimal.Basic

/-!
The full text of a decimal, with every digit it holds. Integers below forty digits and fractions
whose first digit is within twenty places of the point are written positionally, all others with an
exponent, so reading the text gives the number back.
-/

namespace ScientificCalculator.Decimal

def greatestPositionalOrder : Int := 39

def leastPositionalOrder : Int := -20

def intText (n : Int) : List Char :=
  if n < 0 then '-' :: decimalDigits n.natAbs else decimalDigits n.natAbs

/-- The digits with a point before the last `places` of them, and zeros where digits are missing. -/
def pointText (digits : List Char) (places : Nat) : List Char :=
  if places < digits.length then
    digits.take (digits.length - places) ++ '.' :: digits.drop (digits.length - places)
  else '0' :: '.' :: List.replicate (places - digits.length) '0' ++ digits

/-- One digit, the other digits after a point, and the power of ten at the first. -/
def exponentText (digits : List Char) (order : Int) : List Char :=
  match digits with
  | [] => []
  | [digit] => digit :: 'e' :: intText order
  | digit :: rest => digit :: '.' :: rest ++ 'e' :: intText order

def magnitudeText (x : Decimal) : List Char :=
  let digits := decimalDigits x.mantissa.natAbs
  let order := x.exponent + digits.length - 1
  if 0 ≤ x.exponent ∧ order ≤ greatestPositionalOrder then
    digits ++ List.replicate x.exponent.toNat '0'
  else if x.exponent < 0 ∧ leastPositionalOrder ≤ order then pointText digits x.exponent.natAbs
  else exponentText digits order

def text (x : Decimal) : List Char :=
  if x.IsZero then ['0']
  else if x.IsNegative then '-' :: x.magnitudeText
  else x.magnitudeText

instance : ToString Decimal := ⟨fun x => String.ofList x.text⟩

end ScientificCalculator.Decimal
