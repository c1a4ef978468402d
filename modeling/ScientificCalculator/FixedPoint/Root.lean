import ScientificCalculator.Decimal.Scale

/-!
Integer square and cube roots. An integer `x` stands for `x / 10 ^ digits`, and a root is the
greatest such number that does not exceed the exact one.
-/

namespace ScientificCalculator.FixedPoint

/-- The square root of `x / 10 ^ digits`, truncated after its last digit. -/
def squareRoot (x digits : Nat) : Nat := Nat.sqrt (x * tenTo digits)

def cube (n : Nat) : Nat := n * n * n

/-- Fixes the bits of a cube root from the highest down, as long as its cube does not exceed `n`. -/
def cubeRootFrom (n : Nat) : Nat → Nat → Nat
  | 0, root => root
  | bit + 1, root =>
    if cube (root + Nat.pow 2 bit) ≤ n then cubeRootFrom n bit (root + Nat.pow 2 bit)
    else cubeRootFrom n bit root

theorem cubeRootFrom_bounds {n bits root : Nat} (low : cube root ≤ n)
    (high : n < cube (root + Nat.pow 2 bits)) :
    cube (cubeRootFrom n bits root) ≤ n ∧ n < cube (cubeRootFrom n bits root + 1) := by
  induction bits generalizing root with
  | zero => exact ⟨low, high⟩
  | succ bit ih =>
    rw [cubeRootFrom]
    have double : root + Nat.pow 2 bit + Nat.pow 2 bit = root + Nat.pow 2 (bit + 1) := by
      show _ = root + Nat.pow 2 bit * 2
      omega
    split
    · rename_i fits
      exact ih fits (by rwa [double])
    · rename_i above
      exact ih low (Nat.lt_of_not_le above)

/-- The greatest integer whose cube does not exceed `n`. -/
def cubeRoot (n : Nat) : Nat := cubeRootFrom n (n.log2 / 3 + 1) 0

theorem cube_pow_two (k : Nat) : cube (Nat.pow 2 k) = Nat.pow 2 (k * 3) := by
  unfold cube
  rw [Nat.mul_succ, Nat.mul_two]
  have square : Nat.pow 2 (k + k) = Nat.pow 2 k * Nat.pow 2 k := Nat.pow_add 2 k k
  have third : Nat.pow 2 (k + k + k) = Nat.pow 2 (k + k) * Nat.pow 2 k := Nat.pow_add 2 (k + k) k
  rw [third, square]

theorem cubeRoot_bounds (n : Nat) : cube (cubeRoot n) ≤ n ∧ n < cube (cubeRoot n + 1) := by
  apply cubeRootFrom_bounds (Nat.zero_le n)
  rw [Nat.zero_add, cube_pow_two]
  exact Nat.lt_of_lt_of_le Nat.lt_log2_self (Nat.pow_le_pow_right (by decide) (by omega))

end ScientificCalculator.FixedPoint
