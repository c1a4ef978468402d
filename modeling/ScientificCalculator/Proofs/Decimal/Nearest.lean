import ScientificCalculator.Proofs.Decimal.Scaled

/-!
Decimals nearest to a real number. A multiple of the last place that is less than half a unit away
is nearer than any other canonical decimal; one with digits below the last place does not reach the
first place.
-/

namespace ScientificCalculator

/-- A multiple at less than half a unit is nearer than every other one. -/
theorem abs_sub_lt_of_multiple {t u : ℝ} {n m : ℤ} (near : |n * u - t| < u / 2) (other : m ≠ n) :
    |n * u - t| < |m * u - t| := by
  have pos : 0 < u := by linarith [abs_nonneg (n * u - t)]
  have apart : u ≤ |m * u - n * u| := by
    have one : (1 : ℝ) ≤ |((m - n : ℤ) : ℝ)| := by
      exact_mod_cast Int.one_le_abs (sub_ne_zero.2 other)
    rw [← sub_mul, abs_mul, abs_of_pos pos, ← Int.cast_sub]
    exact le_mul_of_one_le_left pos.le one
  have triangle := abs_sub_le (m * u) t (n * u)
  rw [abs_sub_comm t] at triangle
  linarith

namespace Decimal
variable {x y : Decimal} {t : ℝ}

/-- The only canonical decimal that is not farther from the number than another one. -/
structure Nearest (x : Decimal) (t : ℝ) : Prop where
  canonical : x.Canonical
  closest : ∀ y : Decimal, y.Canonical → y ≠ x → |(x.toRat : ℝ) - t| < |(y.toRat : ℝ) - t|

/-- A number that a decimal stands for has no other nearest decimal. -/
theorem Nearest.eq_of_toRat_eq (nearest : x.Nearest t) (canonical : y.Canonical)
    (same : (y.toRat : ℝ) = t) : x = y := by
  by_contra other
  have closer := nearest.closest y canonical (Ne.symm other)
  rw [same, sub_self, abs_zero] at closer
  exact not_lt.2 (abs_nonneg _) closer

/-- A canonical decimal with digits below the last place is short of the first place. -/
theorem toRat_lt_of_exponent_lt (canonical : y.Canonical) {k : Int}
    (fine : y.exponent < k + 1 - precision) : y.toRat < 10 ^ k := by
  have digits := digitCount_of_canonical canonical
  have short : y.firstPlace + 1 ≤ k := by
    rw [firstPlace]
    omega
  calc y.toRat ≤ |y.toRat| := le_abs_self _
    _ < 10 ^ (y.firstPlace + 1) := lt_ten_zpow_firstPlace y
    _ ≤ 10 ^ k := zpow_le_zpow_right₀ (by norm_num) short

theorem nearest_of_multiple {k n : Int} (canonical : x.Canonical) (low : 10 ^ k ≤ t)
    (multiple : x.toRat = n * 10 ^ (k + 1 - precision))
    (near : |(x.toRat : ℝ) - t| < 10 ^ (k + 1 - precision) / 2) : x.Nearest t := by
  have value : (x.toRat : ℝ) = n * 10 ^ (k + 1 - precision) := by
    rw [multiple]
    push_cast
    rfl
  rw [value] at near
  refine ⟨canonical, fun y canonical' other => ?_⟩
  rw [value]
  rcases le_or_gt (k + 1 - precision) y.exponent with coarse | fine
  · -- both are multiples of the last place
    have multiple' := toRat_widen coarse
    generalize y.mantissa * tenTo (y.exponent - (k + 1 - precision)).toNat = m at multiple'
    have value' : (y.toRat : ℝ) = m * 10 ^ (k + 1 - precision) := by
      rw [multiple']
      push_cast
      rfl
    rw [value']
    refine abs_sub_lt_of_multiple near ?_
    rintro rfl
    exact other (eq_of_toRat_eq canonical' canonical (multiple'.trans multiple.symm))
  · -- the first place is a multiple of the last place between `y` and `t`
    have below : (y.toRat : ℝ) < 10 ^ k := by
      have short := (Rat.cast_lt (K := ℝ)).2 (toRat_lt_of_exponent_lt canonical' fine)
      push_cast at short
      exact short
    have first : (10 : ℝ) ^ k = ((10 ^ 59 : Int) : ℝ) * 10 ^ (k + 1 - precision) := by
      have places : k = 59 + (k + 1 - precision) := by
        simp only [precision]
        omega
      nth_rewrite 1 [places]
      rw [zpow_add₀ (by norm_num)]
      norm_num
    have farther : |(10 : ℝ) ^ k - t| < |(y.toRat : ℝ) - t| := by
      rw [abs_of_nonpos (by linarith), abs_of_neg (by linarith)]
      linarith
    by_cases same : n = 10 ^ 59
    · rwa [same, ← first]
    · rw [first] at farther
      exact (abs_sub_lt_of_multiple near (Ne.symm same)).trans farther

end Decimal

end ScientificCalculator
