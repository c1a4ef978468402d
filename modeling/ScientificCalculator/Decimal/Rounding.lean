/-!
Division of integers rounded to the nearest integer, a half going away from zero. The result lies
within half a unit of the exact quotient, and changing the sign of the dividend changes only the
sign of the result.
-/

namespace ScientificCalculator

def roundDivNat (n d : Nat) : Nat := (2 * n + d) / (2 * d)

/-- The quotient rounded to the nearest integer, a half going away from zero. -/
def roundDiv (n : Int) (d : Nat) : Int := n.sign * roundDivNat n.natAbs d

theorem roundDivNat_one (n : Nat) : roundDivNat n 1 = n := by
  unfold roundDivNat
  omega

theorem roundDiv_one (n : Int) : roundDiv n 1 = n := by
  rw [roundDiv, roundDivNat_one, Int.sign_mul_natAbs]

theorem roundDiv_zero (d : Nat) : roundDiv 0 d = 0 := by
  simp [roundDiv]

theorem roundDiv_neg (n : Int) (d : Nat) : roundDiv (-n) d = -roundDiv n d := by
  rw [roundDiv, roundDiv, Int.natAbs_neg, Int.sign_neg, Int.neg_mul]

theorem roundDiv_natCast (n d : Nat) : roundDiv n d = roundDivNat n d := by
  rcases Nat.eq_zero_or_pos n with rfl | pos
  · by_cases h : d = 0
    · simp [roundDiv, roundDivNat, h]
    · have quotient : roundDivNat 0 d = 0 := by
        unfold roundDivNat
        exact Nat.div_eq_of_lt (by omega)
      simp [roundDiv, quotient]
  · have sign : (n : Int).sign = 1 := Int.sign_eq_one_of_pos (by omega)
    simp [roundDiv, sign]

/-- The rounded quotient is the only integer that the exact one exceeds by less than a half, and is
not exceeded by more than a half. -/
theorem roundDivNat_eq_iff {n d q : Nat} (pos : 0 < d) :
    roundDivNat n d = q ↔ 2 * q * d ≤ 2 * n + d ∧ 2 * n + d < 2 * (q + 1) * d := by
  unfold roundDivNat
  rw [Nat.div_eq_iff (by omega), Nat.mul_right_comm 2 q d, Nat.mul_right_comm 2 (q + 1) d,
    Nat.mul_comm q (2 * d), Nat.mul_comm (2 * d) (q + 1), Nat.add_mul, Nat.mul_comm (2 * d) q]
  omega

end ScientificCalculator
