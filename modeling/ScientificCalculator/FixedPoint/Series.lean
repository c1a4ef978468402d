/-!
Sums of power series in fixed point. Every term is truncated toward zero, and a sum ends before its
first term that is zero. The terms reach zero since each is the previous one times a factor that
falls below one.
-/

namespace ScientificCalculator.FixedPoint

/-- One step of a series whose terms multiply `factor / scale` and divide by `divisor`. -/
def nextTerm (scale : Nat) (factor term : Int) (divisor : Nat) : Int :=
  ((term * factor).tdiv scale).tdiv divisor

theorem natAbs_nextTerm (scale : Nat) (factor term : Int) (divisor : Nat) :
    (nextTerm scale factor term divisor).natAbs =
      term.natAbs * factor.natAbs / scale / divisor := by
  rw [nextTerm, Int.natAbs_tdiv, Int.natAbs_tdiv, Int.natAbs_mul, Int.natAbs_natCast,
    Int.natAbs_natCast]
  rfl

/-- A term shrinks once the divisor passes the size of the factor. -/
theorem natAbs_nextTerm_lt {scale divisor : Nat} {factor term : Int}
    (passed : factor.natAbs / scale < divisor) (nonzero : nextTerm scale factor term divisor ≠ 0) :
    (nextTerm scale factor term divisor).natAbs < term.natAbs := by
  have pos : 0 < (nextTerm scale factor term divisor).natAbs := Int.natAbs_pos.2 nonzero
  rw [natAbs_nextTerm] at pos ⊢
  have scale_pos : 0 < scale := by
    rcases Nat.eq_zero_or_pos scale with rfl | h
    · simp at pos
    · exact h
  have term_pos : 0 < term.natAbs := by
    rcases Nat.eq_zero_or_pos term.natAbs with h | h
    · simp [h] at pos
    · exact h
  have divisor_pos : 0 < divisor := Nat.zero_lt_of_lt passed
  rw [Nat.div_lt_iff_lt_mul scale_pos] at passed
  rw [Nat.div_lt_iff_lt_mul divisor_pos, Nat.div_lt_iff_lt_mul scale_pos, Nat.mul_assoc]
  exact Nat.mul_lt_mul_of_pos_left passed term_pos

/-- The terms of a Taylor series from the one with divisor `divisor n` on. -/
def taylorTail (scale : Nat) (factor : Int) (divisor : Nat → Nat) (grows : ∀ n, n ≤ divisor n)
    (term : Int) (n : Nat) : Int :=
  let next := nextTerm scale factor term (divisor n)
  if next = 0 then 0 else next + taylorTail scale factor divisor grows next (n + 1)
termination_by (factor.natAbs / scale + 1 - n, term.natAbs)
decreasing_by
  rename_i nonzero
  by_cases early : n ≤ factor.natAbs / scale
  · exact Prod.Lex.left _ _ (by omega)
  · have same : factor.natAbs / scale + 1 - (n + 1) = factor.natAbs / scale + 1 - n := by omega
    rw [same]
    exact Prod.Lex.right _ (natAbs_nextTerm_lt (Nat.lt_of_lt_of_le (by omega) (grows n)) nonzero)

/-- The same terms with a counter of thirty-two bits, in which the divisors are computed as well. A
divisor that has become zero leaves the series without a sum, and one does where the counter is
`2 ^ 31`. -/
def countedTail (scale : Nat) (factor : Int) (divisor : UInt32 → UInt32)
    (ends : divisor 2147483648 = 0) (term : Int) (n : UInt32) : Option Int :=
  if divisor n = 0 then none
  else
    let next := nextTerm scale factor term (divisor n).toNat
    if next = 0 then some 0
    else (next + ·) <$> countedTail scale factor divisor ends next (n + 1)
termination_by (2147483648 - n).toNat
decreasing_by
  rename_i divides _
  have before : n.toNat ≠ 2147483648 := by
    intro reached
    have same : n = 2147483648 := UInt32.toNat_inj.1 reached
    exact divides (same ▸ ends)
  have last : (2147483648 : UInt32).toNat = 2147483648 := rfl
  have one : (1 : UInt32).toNat = 1 := rfl
  have bounded := n.toNat_lt
  rw [UInt32.toNat_sub, UInt32.toNat_sub, UInt32.toNat_add, last, one]
  omega

/-- The terms with the divisors `2 * k + 1`, `2 * k + 3` and so on, of a series over the powers of
`ratio / scale`. The sum also ends where the powers stop shrinking, which a ratio below the scale
excludes. -/
def oddTail (scale : Nat) (ratio power : Int) (k : Nat) : Int :=
  let next := (power * ratio).tdiv scale
  let term := next.tdiv (2 * k + 1 : Nat)
  if term = 0 then 0
  else if next.natAbs < power.natAbs then term + oddTail scale ratio next (k + 1)
  else term
termination_by power.natAbs
decreasing_by
  rename_i shrinks
  exact shrinks

theorem natAbs_power_lt {scale : Nat} {ratio power : Int} (small : ratio.natAbs < scale)
    (nonzero : power ≠ 0) : ((power * ratio).tdiv scale).natAbs < power.natAbs := by
  rw [Int.natAbs_tdiv, Int.natAbs_mul, Int.natAbs_natCast]
  have pos : 0 < power.natAbs := Int.natAbs_pos.2 nonzero
  exact (Nat.div_lt_iff_lt_mul (by omega)).2 (Nat.mul_lt_mul_of_pos_left small pos)

end ScientificCalculator.FixedPoint
