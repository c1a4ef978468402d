import ScientificCalculator.Decimal.Scale

/-!
The ratio of a circle's circumference to its diameter in fixed point, as sixteen times the
arctangent of a fifth less four times the arctangent of 1/239. Ten guard digits absorb the
truncations of the terms.
-/

namespace ScientificCalculator.FixedPoint

/-- The alternating sum of `scale / (power * (2 * k + 1))`, in which `power` is multiplied by
`square` from term to term, up to the first term that is zero. -/
def inverseArctangentFrom (square scale power k : Nat) : Int :=
  let term := scale / (power * (2 * k + 1))
  if term = 0 then 0 else term - inverseArctangentFrom square scale (power * square) (k + 1)
termination_by scale - k
decreasing_by
  rename_i nonzero
  have pos : 0 < scale / (power * (2 * k + 1)) := Nat.pos_of_ne_zero nonzero
  have bound : power * (2 * k + 1) ≤ scale := by
    rcases Nat.lt_or_ge scale (power * (2 * k + 1)) with below | above
    · rw [Nat.div_eq_of_lt below] at pos
      omega
    · exact above
  have power_pos : 0 < power := by
    rcases Nat.eq_zero_or_pos power with rfl | h
    · simp at pos
    · exact h
  have least : 2 * k + 1 ≤ power * (2 * k + 1) := Nat.le_mul_of_pos_left _ power_pos
  omega

/-- The arctangent of `1 / q` times the scale, each term of its series truncated. -/
def inverseArctangent (q scale : Nat) : Int := inverseArctangentFrom (q * q) scale q 0

def piGuard : Nat := 10

def pi (digits : Nat) : Int :=
  let scale := tenTo (digits + piGuard)
  (16 * inverseArctangent 5 scale - 4 * inverseArctangent 239 scale).tdiv (tenTo piGuard)

end ScientificCalculator.FixedPoint
