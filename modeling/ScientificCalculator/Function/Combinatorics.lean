import ScientificCalculator.Decimal.Arithmetic
import ScientificCalculator.Error

/-!
Factorials and binomial coefficients. A factorial rounds after every product; a binomial coefficient
is an exact integer, rounded once. Bounds on the number of factors and on the size of the result
keep the work finite in practice.
-/

namespace ScientificCalculator

def greatestFactorial : Nat := 100000

def greatestBinomialSteps : Nat := 100000

/-- The coefficient of `k` out of `n` is estimated to have more than a hundred thousand digits, by
the bound `(e * n / k) ^ k`. -/
def BinomialTooLarge (n k : Nat) : Prop :=
  Float.ofNat k * (Float.ofNat (n.log2 + 1) * 0.301029995663981195213738894724493027 -
    Float.log10 (Float.ofNat k) + 0.434294481903251827651128918916605082) > 100000.0

instance (n k : Nat) : Decidable (BinomialTooLarge n k) := inferInstanceAs (Decidable (_ > _))

/-- The coefficient of `k` out of `base + k`. After each step the product of `i` consecutive
integers has been divided by the factorial of `i`, which leaves no remainder. -/
def binomialProduct (base k : Nat) : Nat :=
  k.fold (fun i _ found => found * (base + (i + 1)) / (i + 1)) 1

/-- The binomial coefficient, zero for a choice outside the range from zero to `n`. -/
def binomial (n r : Int) : Except Error Nat :=
  if n < 0 then .error (.domain .combinationsOfNegative)
  else if r < 0 ∨ n < r then .ok 0
  else
    let k := (min r (n - r)).toNat
    if greatestBinomialSteps < k then .error (.domain .combinationsTooLarge)
    else if k = 0 then .ok 1
    else if BinomialTooLarge n.toNat k then .error (.domain .combinationsTooLarge)
    else .ok (binomialProduct (n.toNat - k) k)

namespace Decimal

def wholeNumber (x : Decimal) : Except Error Int :=
  if x.IsInteger then
    match x.toInt? with
    | some n => .ok n
    | none => .error (.domain .integerTooLarge)
  else .error .notInteger

def combinations (n r : Decimal) : Except Error Decimal := do
  let total ← n.wholeNumber
  let chosen ← r.wholeNumber
  return ofInt (← binomial total chosen)

/-- Counted as the choices of the `n - r` elements left out. -/
def permutations (n r : Decimal) : Except Error Decimal := do
  let total ← n.wholeNumber
  let chosen ← r.wholeNumber
  return ofInt (← binomial total (total - chosen))

def factorialProduct (n : Nat) : Decimal := n.fold (fun i _ found => found * ofInt (i + 1)) one

def factorial (x : Decimal) : Except Error Decimal :=
  if ¬ x.IsInteger then .error .notInteger
  else if x.IsNegative then .error (.domain .factorialOfNegative)
  else
    match x.toInt64? with
    | some n =>
      if n ≤ greatestFactorial then .ok (factorialProduct n.toNat) else .error (.domain .overflow)
    | none => .error (.domain .overflow)

end Decimal

end ScientificCalculator
