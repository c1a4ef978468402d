/-!
Powers of ten with natural exponents, by which mantissas are widened and fixed-point numbers are
scaled. A sum of exponents gives a product, and a greater exponent a greater power.
-/

namespace ScientificCalculator

/-- The greatest exponent of a power of ten that the calculator forms, `2 ^ 32 - 1`; for a greater one
it takes this power. -/
def greatestPower : Nat := 4294967295

/-- Ten multiplied by itself `n` times, without an end at `greatestPower`. Only numbers with more
digits than that need a greater power, and what is stated about them names this bound. -/
def tenTo (n : Nat) : Nat := Nat.pow 10 n

theorem tenTo_zero : tenTo 0 = 1 := rfl

theorem tenTo_succ (n : Nat) : tenTo (n + 1) = tenTo n * 10 := rfl

theorem tenTo_pos (n : Nat) : 0 < tenTo n := by
  induction n with
  | zero => decide
  | succ n ih =>
    rw [tenTo_succ]
    omega

theorem tenTo_add (m n : Nat) : tenTo (m + n) = tenTo m * tenTo n := by
  induction n with
  | zero => rw [Nat.add_zero, tenTo_zero, Nat.mul_one]
  | succ n ih => rw [← Nat.add_assoc, tenTo_succ, tenTo_succ, ih, Nat.mul_assoc]

theorem tenTo_le_tenTo {m n : Nat} (le : m ≤ n) : tenTo m ≤ tenTo n := by
  obtain ⟨k, rfl⟩ := Nat.exists_eq_add_of_le le
  rw [tenTo_add]
  exact Nat.le_mul_of_pos_right _ (tenTo_pos k)

theorem lt_of_tenTo_lt {m n : Nat} (lt : tenTo m < tenTo n) : m < n := by
  apply Nat.lt_of_not_le
  intro le
  exact Nat.not_lt.2 (tenTo_le_tenTo le) lt

theorem ten_dvd_tenTo_succ (n : Nat) : 10 ∣ tenTo (n + 1) := ⟨tenTo n, Nat.mul_comm _ _⟩

end ScientificCalculator
