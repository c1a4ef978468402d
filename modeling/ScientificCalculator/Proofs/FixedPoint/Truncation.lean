import Mathlib.Data.Nat.Cast.Order.Field
import Mathlib.Data.Real.Basic
import Mathlib.Tactic.FieldSimp
import Mathlib.Tactic.Linarith
import Mathlib.Tactic.Positivity
import Mathlib.Tactic.Ring
import ScientificCalculator.Decimal.Scale

/-!
Fixed-point numbers as real numbers. A quotient truncated toward zero is less than a unit away from
the exact one and never greater in size, and truncating twice is truncating once. Errors are counted
in units of the last digit, or in proportion to the value.
-/

namespace ScientificCalculator

theorem realCast_pow (base n : Nat) : ((Nat.pow base n : Nat) : ℝ) = base ^ n :=
  Nat.cast_pow base n

theorem realCast_tenTo (n : Nat) : ((tenTo n : Nat) : ℝ) = 10 ^ n := realCast_pow 10 n

theorem tdiv_tdiv (a : Int) (m n : Nat) : (a.tdiv m).tdiv n = a.tdiv ((m * n : Nat) : Int) := by
  obtain ⟨k, rfl | rfl⟩ := a.eq_nat_or_neg
  · rw [← Int.ofNat_tdiv, ← Int.ofNat_tdiv, ← Int.ofNat_tdiv, Nat.div_div_eq_div_mul]
  · rw [Int.neg_tdiv, Int.neg_tdiv, Int.neg_tdiv, ← Int.ofNat_tdiv, ← Int.ofNat_tdiv,
      ← Int.ofNat_tdiv, Nat.div_div_eq_div_mul]

section Truncation
variable {n : Nat}

theorem tdiv_eq_zero_iff (pos : 0 < n) {a : Int} : a.tdiv n = 0 ↔ a.natAbs < n := by
  rw [← Int.natAbs_eq_zero, Int.natAbs_tdiv, Int.natAbs_natCast]
  exact Nat.div_eq_zero_iff_lt pos

theorem abs_tdiv_sub_lt (a : Int) (pos : 0 < n) : |((a.tdiv n : Int) : ℝ) - a / n| < 1 := by
  have pos' : (0 : ℝ) < n := by exact_mod_cast pos
  have whole : ((n * a.tdiv n + a.tmod n : Int) : ℝ) = a := by rw [Int.mul_tdiv_add_tmod]
  have rest : |((a.tmod n : Int) : ℝ)| < n := by
    have less : (a.tmod n).natAbs < n := by
      rw [Int.natAbs_tmod, Int.natAbs_natCast]
      exact Nat.mod_lt _ pos
    rw [← Int.cast_abs, ← Int.natCast_natAbs]
    exact_mod_cast less
  have apart : ((a.tdiv n : Int) : ℝ) - a / n = -(a.tmod n / n) := by
    push_cast at whole
    field_simp
    linarith
  rw [apart, abs_neg, abs_div, abs_of_pos pos', div_lt_one pos']
  exact rest

theorem abs_tdiv_le_div_abs (a b : Int) : |((a.tdiv b : Int) : ℝ)| ≤ |(a : ℝ)| / |(b : ℝ)| := by
  rw [← Int.cast_abs, ← Int.cast_abs, ← Int.cast_abs, ← Int.natCast_natAbs, ← Int.natCast_natAbs,
    ← Int.natCast_natAbs, Int.natAbs_tdiv]
  have quotient : ((a.natAbs / b.natAbs : Nat) : ℝ) ≤ (a.natAbs : ℝ) / b.natAbs := Nat.cast_div_le
  exact quotient

theorem abs_tdiv_le (a : Int) (n : Nat) : |((a.tdiv n : Int) : ℝ)| ≤ |(a : ℝ)| / n := by
  have quotient := abs_tdiv_le_div_abs a n
  rwa [Int.cast_natCast, Nat.abs_cast] at quotient

theorem abs_tdiv_le_abs (a : Int) (n : Nat) : |((a.tdiv n : Int) : ℝ)| ≤ |(a : ℝ) / n| := by
  rw [abs_div, Nat.abs_cast]
  exact abs_tdiv_le a n

/-- Guard digits that are dropped take the error down with them. -/
theorem abs_tdiv_tenTo_sub_lt {a : Int} {value error : ℝ} {digits : Nat} (guard : Nat)
    (near : |(a : ℝ) - 10 ^ (digits + guard) * value| ≤ error) :
    |((a.tdiv (tenTo guard) : Int) : ℝ) - 10 ^ digits * value| < 1 + error / 10 ^ guard := by
  have power : (0 : ℝ) < 10 ^ guard := by positivity
  have truncated := abs_tdiv_sub_lt a (tenTo_pos guard)
  have scaled : |(a : ℝ) / 10 ^ guard - 10 ^ digits * value| ≤ error / 10 ^ guard := by
    have apart : (a : ℝ) / 10 ^ guard - 10 ^ digits * value =
        (a - 10 ^ (digits + guard) * value) / 10 ^ guard := by
      rw [pow_add]
      field_simp
    rw [apart, abs_div, abs_of_pos power]
    exact div_le_div_of_nonneg_right near power.le
  rw [realCast_tenTo] at truncated
  exact (abs_sub_le _ _ _).trans_lt (add_lt_add_of_lt_of_le truncated scaled)

end Truncation

section Proportion
variable {a b c ε δ : ℝ}

/-- The number `a` differs from `b` by at most `ε` in proportion. -/
def Within (ε a b : ℝ) : Prop := |a - b| ≤ ε * |b|

theorem Within.abs_le (close : Within ε a b) : |a| ≤ (1 + ε) * |b| := by
  have triangle := abs_add_le (a - b) b
  rw [sub_add_cancel] at triangle
  unfold Within at close
  linarith

theorem Within.trans (first : Within ε a b) (second : Within δ b c) (natural : 0 ≤ ε) :
    Within (ε * (1 + δ) + δ) a c := by
  have size := second.abs_le
  unfold Within at *
  calc |a - c| ≤ |a - b| + |b - c| := abs_sub_le _ _ _
    _ ≤ ε * ((1 + δ) * |c|) + δ * |c| :=
        add_le_add (first.trans (mul_le_mul_of_nonneg_left size natural)) second
    _ = (ε * (1 + δ) + δ) * |c| := by ring

theorem Within.mono (close : Within ε a b) (le : ε ≤ δ) : Within δ a b :=
  le_trans close (mul_le_mul_of_nonneg_right le (abs_nonneg b))

theorem Within.mul_right (close : Within ε a b) (c : ℝ) : Within ε (a * c) (b * c) := by
  unfold Within at *
  rw [← sub_mul, abs_mul, abs_mul, ← mul_assoc]
  exact mul_le_mul_of_nonneg_right close (abs_nonneg c)

/-- A fixed-point number is about as large as the value that it stands for. -/
theorem abs_le_of_near {digits : Nat} (near : |a - 10 ^ digits * b| ≤ ε) (size : |b| ≤ c) :
    |a| ≤ 10 ^ digits * c + ε := by
  have power : (0 : ℝ) < 10 ^ digits := by positivity
  have triangle := abs_sub_abs_le_abs_sub a (10 ^ digits * b)
  have product := mul_le_mul_of_nonneg_left size power.le
  rw [abs_mul, abs_of_pos power] at triangle
  linarith

theorem abs_scaled_sub (digits : Nat) (a b : ℝ) :
    |10 ^ digits * a - 10 ^ digits * b| = 10 ^ digits * |a - b| := by
  rw [← mul_sub, abs_mul, abs_of_pos (by positivity : (0 : ℝ) < 10 ^ digits)]

end Proportion

end ScientificCalculator
