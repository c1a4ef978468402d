import ScientificCalculator.Decimal.Canonical
import ScientificCalculator.Decimal.Literal
import ScientificCalculator.Expression.Operator
import ScientificCalculator.Proofs.Failure

/-!
Every operation and function has a canonical result on canonical operands. Most results come from
rounding, which gives a canonical decimal whatever it rounds; the others only change a sign or an
exponent, or are one of the operands.
-/

namespace ScientificCalculator

namespace Decimal
variable {x y : Decimal}

theorem canonical_zero : zero.Canonical := by decide

theorem canonical_one : one.Canonical := by decide +kernel

/-- The form of a number other than zero does not depend on its exponent. -/
theorem canonical_withExponent (canonical : x.Canonical) (nonzero : x.mantissa ≠ 0)
    (exponent : Int) : Canonical ⟨x.mantissa, exponent⟩ := by
  unfold Canonical at *
  rw [if_neg nonzero] at canonical
  rw [if_neg nonzero]
  exact canonical

theorem canonical_tenPow (n : Int) : (tenPow n).Canonical :=
  canonical_withExponent canonical_one (by decide) n

theorem canonical_ofInt (n : Int) : (ofInt n).Canonical := canonical_ofParts n 0

theorem canonical_ofScaled (n : Int) (digits : Nat) : (ofScaled n digits).Canonical :=
  canonical_ofParts n _

theorem canonical_abs (canonical : x.Canonical) : x.abs.Canonical := by
  rcases Int.natAbs_eq x.mantissa with same | opposite
  · have unchanged : x.abs = x := Decimal.ext same.symm rfl
    rwa [unchanged]
  · have negated : x.abs = -x := Decimal.ext (Int.neg_eq_comm.1 opposite.symm).symm rfl
    rw [negated]
    exact canonical_neg canonical

theorem canonical_shift (canonical : x.Canonical) (places : Int) :
    (x.shift places).Canonical := by
  unfold shift
  split
  · exact canonical_zero
  · exact canonical_withExponent canonical ‹_› _

theorem canonical_dropNegligible (canonical : x.Canonical) : x.dropNegligible.Canonical := by
  unfold dropNegligible
  split
  · exact canonical_zero
  · exact canonical

end Decimal

variable {x y : Decimal}

end ScientificCalculator
