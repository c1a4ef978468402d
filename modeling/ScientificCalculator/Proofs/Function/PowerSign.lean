import ScientificCalculator.Proofs.Decimal.Opposite
import ScientificCalculator.Proofs.Function.Power

/-!
The sign of powers. Products, quotients and estimates of the size look at magnitudes only, so the
opposite base gives the same power, with the opposite sign where the exponent is odd. The exponent
may be a machine integer, an integer that is written out, or one that is too long for that.
-/

namespace ScientificCalculator

namespace Decimal

variable {a b x y : Decimal}

section Negation

theorem orderEstimate_neg (x : Decimal) : (-x).orderEstimate = x.orderEstimate := by
  rw [orderEstimate, leadingDigits_neg]
  rfl

theorem reciprocal_neg (x : Decimal) : (-x).reciprocal = x.reciprocal.map Neg.neg := by
  rw [reciprocal, reciprocal, divide, divide, div?_neg]
  cases one.div? x <;> rfl

end Negation

section Parity
variable {n : Int}

/-- The opposite of a number, if the power is odd. -/
def withParity (n : Int) (x : Decimal) : Decimal := if Odd n then -x else x

theorem withParity_of_odd (odd : Odd n) (x : Decimal) : withParity n x = -x := if_pos odd

theorem withParity_of_even (even : Even n) (x : Decimal) : withParity n x = x :=
  if_neg (Int.not_odd_iff_even.2 even)

theorem withParity_zero (n : Int) : withParity n zero = zero := by
  unfold withParity
  split <;> rfl

theorem withParity_natAbs (n : Int) : withParity n.natAbs = withParity n := by
  funext x
  unfold withParity
  simp only [Int.natCast_natAbs, odd_abs]

theorem reciprocal_withParity (n : Int) (x : Decimal) :
    (withParity n x).reciprocal = x.reciprocal.map (withParity n) := by
  unfold withParity
  split
  · exact reciprocal_neg x
  · cases x.reciprocal <;> rfl

theorem powerBySquaring_neg_found (found base : Decimal) (n : Nat) :
    powerBySquaring (-found) base n = -powerBySquaring found base n := by
  induction n using Nat.strong_induction_on generalizing found base with
  | _ n ih =>
    rcases Nat.eq_zero_or_pos n with rfl | pos
    · rw [powerBySquaring_zero, powerBySquaring_zero]
    · have smaller : n / 2 < n := Nat.div_lt_self pos (by decide)
      rw [powerBySquaring_of_pos pos, powerBySquaring_of_pos pos, ← ih _ smaller, mul_neg_left]
      congr 1
      split <;> rfl

/-- The square forgets the sign of the base, and only an odd exponent has taken it up before. -/
theorem powerBySquaring_neg (found base : Decimal) (n : Nat) :
    powerBySquaring found (-base) n = withParity n (powerBySquaring found base n) := by
  rcases Nat.eq_zero_or_pos n with rfl | pos
  · rw [powerBySquaring_zero, powerBySquaring_zero, withParity_of_even (by decide)]
  · rw [powerBySquaring_of_pos pos, powerBySquaring_of_pos pos found base, mul_neg_both,
      mul_neg_right]
    by_cases odd : n % 2 = 1
    · rw [if_pos odd, if_pos odd, powerBySquaring_neg_found,
        withParity_of_odd (Int.odd_iff.2 (by omega))]
    · rw [if_neg odd, if_neg odd, withParity_of_even (Int.even_iff.2 (by omega))]

theorem integerPower_neg (a : Decimal) (n : Int) :
    integerPower (-a) n = (integerPower a n).map (withParity n) := by
  have overflows : PowerOverflows (-a) n ↔ PowerOverflows a n := by
    rw [PowerOverflows, PowerOverflows, orderEstimate_neg]
  have underflows : PowerUnderflows (-a) n ↔ PowerUnderflows a n := by
    rw [PowerUnderflows, PowerUnderflows, orderEstimate_neg]
  rw [integerPower, integerPower]
  simp only [overflows, underflows, powerBySquaring_neg, withParity_natAbs, reciprocal_withParity]
  split
  · rfl
  · split
    · rw [Except.map, withParity_zero]
    · split <;> rfl

theorem powerByLogarithm_neg (positive : a.IsPositive) (b : Decimal) :
    powerByLogarithm (-a) b =
      (powerByLogarithm a b).map fun x => if b.IsOdd then -x else x := by
  have negative : (-a).IsNegative := Int.neg_neg_of_pos positive
  have natural : ¬ a.IsNegative := not_lt_of_gt positive
  rw [powerByLogarithm, powerByLogarithm, abs_opposite]
  simp only [negative, natural, true_and, false_and, if_false]
  cases a.abs.ln with
  | error => rfl
  | ok logarithm =>
    show (exp (b * logarithm) >>= _) = Except.map _ (exp (b * logarithm) >>= _)
    cases exp (b * logarithm) <;> rfl

end Parity

/-- The sign law of powers. The power of the opposite base is the same for an even exponent and the
opposite one for an odd exponent, or fails with the same error, whatever the size of the exponent. -/
theorem power_neg {k : Int} (positive : a.IsPositive) (canonical : b.Canonical)
    (value : b.toRat = k) :
    (Even k → power (-a) b = power a b) ∧
      (Odd k → power (-a) b = (power a b).map fun r => -r) := by
  have nonzero : a.mantissa ≠ 0 := positive.ne'
  have parity : power (-a) b = (power a b).map (withParity k) := by
    by_cases zero : b.mantissa = 0
    · have even : k = 0 := by
        rw [toRat_eq_zero_iff.2 zero] at value
        exact_mod_cast value.symm
      have unit (base : Decimal) : power base b = .ok one := if_pos zero
      rw [unit, unit, even]
      exact congrArg Except.ok (withParity_of_even Even.zero one).symm
    · have whole := isInteger_of_toRat_eq canonical value
      rw [power_of_isInteger (Int.neg_ne_zero.2 nonzero) zero whole,
        power_of_isInteger nonzero zero whole]
      cases read : b.toInt64? with
      | some n =>
        have same : n = k := by
          have value' := toRat_of_toInt64?_eq_some read
          rw [value] at value'
          exact_mod_cast value'.symm
        rw [← same]
        exact integerPower_neg a n
      | none =>
        have odd := isOdd_iff canonical value
        simp only [powerByLogarithm_neg positive, odd]
        rfl
  constructor
  · intro even
    rw [parity, funext (withParity_of_even even)]
    cases power a b <;> rfl
  · intro odd
    rw [parity, funext (withParity_of_odd odd)]

/-- The sign law at the greatest exponent that is a machine integer, at an odd one beyond it, and at
one that is too long to be written out. -/
theorem power_neg_each_route :
    power (-⟨2, 0⟩) ⟨9223372036854775807, 0⟩ =
        (power ⟨2, 0⟩ ⟨9223372036854775807, 0⟩).map (fun r => -r) ∧
      power (-⟨2, 0⟩) ⟨9223372036854775809, 0⟩ =
        (power ⟨2, 0⟩ ⟨9223372036854775809, 0⟩).map (fun r => -r) ∧
      power (-⟨2, 0⟩) ⟨1, 100001⟩ = power ⟨2, 0⟩ ⟨1, 100001⟩ := by
  have positive : IsPositive ⟨2, 0⟩ := by decide
  have machine : toRat ⟨9223372036854775807, 0⟩ = (9223372036854775807 : Int) := by
    rw [toRat, zpow_zero, mul_one]
  have beyond : toRat ⟨9223372036854775809, 0⟩ = (9223372036854775809 : Int) := by
    rw [toRat, zpow_zero, mul_one]
  have long : toRat ⟨1, 100001⟩ = (10 ^ 100001 : Int) := by
    rw [toRat, Int.cast_one, one_mul, Int.cast_pow, Int.cast_ofNat]
    exact zpow_ofNat 10 100001
  exact ⟨(power_neg positive (by decide +kernel) machine).2 (by decide),
    (power_neg positive (by decide +kernel) beyond).2 (by decide),
    (power_neg positive (by decide +kernel) long).1
      ((by decide : Even (10 : Int)).pow_of_ne_zero (by decide))⟩

end Decimal

end ScientificCalculator
