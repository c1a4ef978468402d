import ScientificCalculator.Proofs.Decimal.Scaled

/-!
Rounding twice, to a guard place and then to the last place that is kept. A number just short of a
half in the last place is raised to that half by the first rounding, and so it is rounded the wrong
way by the second; any other number is rounded as if it were rounded once.
-/

namespace ScientificCalculator

/-- The multiple of `10 ^ place` that is nearest to `q`, a half going away from zero. -/
def roundAt (place : Int) (q : ℚ) : ℚ :=
  SignType.sign q * (⌊|q| / 10 ^ place + 1 / 2⌋ * 10 ^ place)

/-- The magnitude is below a half in its last place, but by no more than `margin`. -/
def ShortOfHalf (q margin : ℚ) : Prop :=
  ∃ n : Int, |q| < (n + 1 / 2) * 10 ^ lastPlace |q| ∧
    (n + 1 / 2) * 10 ^ lastPlace |q| ≤ |q| + margin

section Twice
variable {q : ℚ} {k place : Int}

theorem roundAt_neg (place : Int) (q : ℚ) : roundAt place (-q) = -roundAt place q := by
  rw [roundAt, roundAt, abs_neg, Left.sign_neg, SignType.coe_neg, neg_mul]

theorem roundAt_zero (place : Int) : roundAt place 0 = 0 := by
  rw [roundAt, sign_zero, SignType.coe_zero, zero_mul]

theorem roundAt_of_pos (pos : 0 < q) :
    roundAt place q = ⌊q / 10 ^ place + 1 / 2⌋ * 10 ^ place := by
  rw [roundAt, sign_pos pos, abs_of_pos pos, SignType.coe_one, one_mul]

/-- Whether a rounded number reaches a half in a coarser place is seen from the number raised by
half a unit, since that half is a whole number of units. -/
theorem floor_twice (v : ℚ) {s : Int} (pos : 0 < s) :
    ⌊(⌊v + 1 / 2⌋ : ℚ) / (2 * s) + 1 / 2⌋ = ⌊(v + 1 / 2) / (2 * s) + 1 / 2⌋ := by
  have pos' : (0 : ℚ) < s := by exact_mod_cast pos
  have half (n : Int) (a : ℚ) : (n : ℚ) ≤ a / (2 * s) + 1 / 2 ↔ (((2 * n - 1) * s : Int) : ℚ) ≤ a := by
    rw [← sub_le_iff_le_add, le_div_iff₀ (by positivity)]
    push_cast
    constructor <;> intro h <;> linarith
  apply eq_of_forall_le_iff
  intro n
  rw [Int.le_floor, Int.le_floor, half, half, Int.cast_le, Int.le_floor]

/-- Raising a number carries it over the half above it, or changes nothing. -/
theorem floor_raised {v raise : ℚ} (natural : 0 ≤ raise) (small : raise < 1 / 2) :
    ((∃ n : Int, v < n + 1 / 2 ∧ n + 1 / 2 ≤ v + raise) →
      ⌊v + raise + 1 / 2⌋ = ⌊v + 1 / 2⌋ + 1) ∧
    (¬ (∃ n : Int, v < n + 1 / 2 ∧ n + 1 / 2 ≤ v + raise) →
      ⌊v + raise + 1 / 2⌋ = ⌊v + 1 / 2⌋) := by
  constructor
  · rintro ⟨n, below, reached⟩
    have before : ⌊v + 1 / 2⌋ = n := Int.floor_eq_iff.2 ⟨by linarith, by linarith⟩
    have after : ⌊v + raise + 1 / 2⌋ = n + 1 := by
      rw [Int.floor_eq_iff]
      push_cast
      constructor <;> linarith
    rw [before, after]
  · intro none
    have low := Int.floor_le (v + 1 / 2)
    have high := Int.lt_floor_add_one (v + 1 / 2)
    have missed : v + raise < ⌊v + 1 / 2⌋ + 1 / 2 := by
      by_contra reached
      exact none ⟨⌊v + 1 / 2⌋, by linarith, not_lt.1 reached⟩
    exact Int.floor_eq_iff.2 ⟨by linarith, by linarith⟩

/-- The last place of a number that was rounded up to a power of ten may be taken one lower. -/
theorem roundMagnitude_eq_floor (low : 10 ^ k ≤ q) (high : q ≤ 10 ^ (k + 1)) :
    roundMagnitude q =
      ⌊q / 10 ^ (k + 1 - precision) + 1 / 2⌋ * 10 ^ (k + 1 - precision) := by
  rcases high.lt_or_eq with below | rfl
  · rw [roundMagnitude, lastPlace_eq low below]
  · have digits : (precision : Int) = 60 := rfl
    have unit := ten_zpow_pos (k + 1 - precision)
    have whole : (10 : ℚ) ^ (k + 1) = ((10 ^ 60 : Int) : ℚ) * 10 ^ (k + 1 - precision) := by
      rw [ten_zpow_eq_mul 60 (by omega : k + 1 = (60 : Nat) + (k + 1 - precision))]
      norm_cast
    have next : (10 : ℚ) ^ (k + 1) < 10 ^ (k + 1 + 1) :=
      zpow_lt_zpow_right₀ (by norm_num) (by omega)
    have multiple : (10 : ℚ) ^ (k + 1) = ((10 ^ 59 : Int) : ℚ) * 10 ^ (k + 1 + 1 - precision) := by
      rw [ten_zpow_eq_mul 59 (by omega : k + 1 = (59 : Nat) + (k + 1 + 1 - precision))]
      norm_cast
    have nearest : ⌊(10 : ℚ) ^ (k + 1) / 10 ^ (k + 1 - precision) + 1 / 2⌋ = 10 ^ 60 := by
      rw [whole, mul_div_cancel_right₀ _ unit.ne', Int.floor_intCast_add]
      norm_num
    rw [roundMagnitude_of_multiple le_rfl next multiple, nearest, whole]

theorem roundAt_bounds (low : 10 ^ k ≤ q) (high : q < 10 ^ (k + 1)) (below : place ≤ k) :
    10 ^ k ≤ roundAt place q ∧ roundAt place q ≤ 10 ^ (k + 1) := by
  have unit := ten_zpow_pos place
  have whole (j : Int) (above : place ≤ j) :
      (10 : ℚ) ^ j = ((10 ^ (j - place).toNat : Int) : ℚ) * 10 ^ place := by
    rw [ten_zpow_eq_mul (j - place).toNat (by omega : j = ((j - place).toNat : Int) + place)]
    norm_cast
  rw [roundAt_of_pos (lt_of_lt_of_le (ten_zpow_pos k) low)]
  rw [whole k below, ← le_div_iff₀ unit] at low
  rw [whole (k + 1) (by omega), ← div_lt_iff₀ unit] at high
  rw [whole k below, whole (k + 1) (by omega)]
  constructor
  · apply mul_le_mul_of_nonneg_right _ unit.le
    rw [Int.cast_le, Int.le_floor]
    linarith
  · apply mul_le_mul_of_nonneg_right _ unit.le
    rw [Int.cast_le, ← Int.lt_add_one_iff, Int.floor_lt]
    push_cast at high ⊢
    linarith

/-- Rounding to a guard place and then to the last place is rounding to the last place what was
raised by half a unit of the guard place. -/
theorem roundMagnitude_roundAt (low : 10 ^ k ≤ q) (high : q < 10 ^ (k + 1))
    (guard : place < k + 1 - precision) :
    roundMagnitude (roundAt place q) =
      ⌊(q + 10 ^ place / 2) / 10 ^ (k + 1 - precision) + 1 / 2⌋ * 10 ^ (k + 1 - precision) := by
  have digits : (precision : Int) = 60 := rfl
  have pos := lt_of_lt_of_le (ten_zpow_pos k) low
  have unit := ten_zpow_pos place
  obtain ⟨least, most⟩ := roundAt_bounds low high (by omega : place ≤ k)
  obtain ⟨g, wide⟩ : ∃ g : Nat, k + 1 - precision = (g + 1 : Nat) + place :=
    ⟨(k + 1 - precision - place).toNat - 1, by omega⟩
  have coarse : (10 : ℚ) ^ (k + 1 - precision) = 2 * ((5 * 10 ^ g : Int) : ℚ) * 10 ^ place := by
    rw [ten_zpow_eq_mul (g + 1) wide, pow_succ]
    push_cast
    ring
  have scaled (a : ℚ) : a / 10 ^ (k + 1 - precision) =
      a / 10 ^ place / (2 * ((5 * 10 ^ g : Int) : ℚ)) := by
    rw [coarse, div_div, mul_comm]
  have raised : (q + 10 ^ place / 2) / 10 ^ place = q / 10 ^ place + 1 / 2 := by
    field_simp
  rw [roundMagnitude_eq_floor least most, scaled, scaled, raised, roundAt_of_pos pos,
    mul_div_cancel_right₀ _ unit.ne', floor_twice _ (by positivity)]

theorem lastPlace_bounds (pos : 0 < q) :
    10 ^ (lastPlace q + precision - 1) ≤ q ∧ q < 10 ^ (lastPlace q + precision - 1 + 1) := by
  have place : lastPlace q + precision - 1 = Int.log 10 q := by
    rw [lastPlace]
    omega
  rw [place]
  constructor
  · exact_mod_cast Int.zpow_log_le_self (b := 10) (by decide) pos
  · exact_mod_cast Int.lt_zpow_succ_log_self (b := 10) (by decide) q

/-- A number that is rounded to a guard place first goes the wrong way exactly where it is short of
a half by no more than half a unit of the guard place. -/
theorem roundMagnitude_twice (pos : 0 < q) (guard : place < lastPlace q) :
    (ShortOfHalf q (10 ^ place / 2) →
      roundMagnitude (roundAt place q) = roundMagnitude q + 10 ^ lastPlace q) ∧
    (¬ ShortOfHalf q (10 ^ place / 2) → roundMagnitude (roundAt place q) = roundMagnitude q) := by
  obtain ⟨low, high⟩ := lastPlace_bounds pos
  have place' : lastPlace q + precision - 1 + 1 - precision = lastPlace q := by omega
  have twice := roundMagnitude_roundAt low high (place'.symm ▸ guard)
  have narrow : 10 * (10 : ℚ) ^ place ≤ 10 ^ lastPlace q := by
    rw [← zpow_one_add₀ (by norm_num)]
    exact zpow_le_zpow_right₀ (by norm_num) (by omega)
  have unit := ten_zpow_pos (lastPlace q)
  have finer := ten_zpow_pos place
  rw [place', add_div] at twice
  have short : ShortOfHalf q (10 ^ place / 2) ↔ ∃ n : Int, q / 10 ^ lastPlace q < n + 1 / 2 ∧
      n + 1 / 2 ≤ q / 10 ^ lastPlace q + 10 ^ place / 2 / 10 ^ lastPlace q := by
    rw [ShortOfHalf, abs_of_pos pos]
    simp only [div_lt_iff₀ unit, ← add_div, le_div_iff₀ unit]
  have small : (10 : ℚ) ^ place / 2 / 10 ^ lastPlace q < 1 / 2 := by
    rw [div_lt_iff₀ unit]
    linarith
  obtain ⟨carried, kept⟩ := floor_raised (v := q / 10 ^ lastPlace q)
    (div_nonneg (half_pos finer).le unit.le) small
  rw [short, twice, roundMagnitude]
  constructor
  · intro reached
    rw [carried reached]
    push_cast
    ring
  · intro missed
    rw [kept missed]

/-- The sign takes no part in the two roundings. -/
theorem roundSignificant_roundAt_eq (guard : place < lastPlace |q|) :
    roundSignificant (roundAt place q) = SignType.sign q * roundMagnitude (roundAt place |q|) := by
  have positive {p : ℚ} (pos : 0 < p) (guard : place < lastPlace p) :
      roundSignificant (roundAt place p) = roundMagnitude (roundAt place p) := by
    obtain ⟨low, high⟩ := lastPlace_bounds pos
    have least := (roundAt_bounds low high (by simp [precision]; omega : place ≤ _)).1
    exact roundSignificant_of_pos (lt_of_lt_of_le (ten_zpow_pos _) least)
  rcases lt_trichotomy q 0 with negative | rfl | pos
  · have opposite := positive (neg_pos.2 negative) (abs_of_neg negative ▸ guard)
    rw [roundAt_neg, roundSignificant_neg, ← roundAt_neg] at opposite
    rw [abs_of_neg negative, sign_neg negative, SignType.coe_neg_one, neg_one_mul, ← opposite,
      neg_neg]
  · rw [roundAt_zero, roundSignificant_zero, sign_zero, SignType.coe_zero, zero_mul]
  · rw [abs_of_pos pos] at guard ⊢
    rw [sign_pos pos, SignType.coe_one, one_mul, positive pos guard]

theorem roundSignificant_roundAt (guard : place < lastPlace |q|) :
    (ShortOfHalf q (10 ^ place / 2) →
      roundSignificant (roundAt place q) =
        roundSignificant q + SignType.sign q * 10 ^ lastPlace |q|) ∧
    (¬ ShortOfHalf q (10 ^ place / 2) →
      roundSignificant (roundAt place q) = roundSignificant q) := by
  rw [roundSignificant_roundAt_eq guard, roundSignificant, ← mul_add]
  rcases eq_or_ne q 0 with rfl | nonzero
  · rw [sign_zero, SignType.coe_zero, zero_mul, zero_mul, zero_mul]
    exact ⟨fun _ => rfl, fun _ => rfl⟩
  · have magnitude : ShortOfHalf |q| (10 ^ place / 2) ↔ ShortOfHalf q (10 ^ place / 2) := by
      rw [ShortOfHalf, ShortOfHalf, abs_abs]
    obtain ⟨carried, kept⟩ := roundMagnitude_twice (abs_pos.2 nonzero) guard
    rw [magnitude] at carried kept
    exact ⟨fun short => by rw [carried short], fun other => by rw [kept other]⟩

/-- The second rounding adds half a unit of the guard place to the error of the first. -/
theorem abs_roundSignificant_roundAt_sub_le (guard : place < lastPlace |q|) :
    |roundSignificant (roundAt place q) - q| ≤ (10 ^ lastPlace |q| + 10 ^ place) / 2 := by
  have unit := ten_zpow_pos (lastPlace |q|)
  have finer := ten_zpow_pos place
  rw [roundSignificant_roundAt_eq guard]
  rcases eq_or_ne q 0 with rfl | nonzero
  · rw [sign_zero, SignType.coe_zero, zero_mul, sub_zero, abs_zero]
    positivity
  · have pos := abs_pos.2 nonzero
    have magnitude : |SignType.sign q * roundMagnitude (roundAt place |q|) - q| =
        |roundMagnitude (roundAt place |q|) - (|q|)| := by
      rcases lt_or_gt_of_ne nonzero with negative | positive
      · rw [sign_neg negative, SignType.coe_neg_one, abs_of_neg negative, neg_one_mul,
          ← abs_neg, neg_sub, sub_neg_eq_add, sub_neg_eq_add, add_comm]
      · rw [sign_pos positive, SignType.coe_one, one_mul, abs_of_pos positive]
    obtain ⟨low, high⟩ := lastPlace_bounds pos
    have place' : lastPlace |q| + precision - 1 + 1 - precision = lastPlace |q| := by omega
    have twice := roundMagnitude_roundAt low high (place'.symm ▸ guard)
    rw [place'] at twice
    have nearest := abs_sub_round ((|q| + 10 ^ place / 2) / 10 ^ lastPlace |q|)
    rw [round_eq] at nearest
    have scaled := mul_le_mul_of_nonneg_right nearest unit.le
    rw [← abs_of_pos unit, ← abs_mul, abs_of_pos unit, sub_mul, div_mul_cancel₀ _ unit.ne', ← twice]
      at scaled
    obtain ⟨below, above⟩ := abs_le.1 scaled
    rw [magnitude, abs_le]
    constructor <;> linarith

/-- An integer quotient rounded to an integer is the exact quotient rounded to a place. -/
theorem roundDiv_mul_ten_zpow (n : Int) {d : Nat} (pos : 0 < d) (place : Int) :
    (roundDiv n d : ℚ) * 10 ^ place = roundAt place (n / d * 10 ^ place) := by
  have natural (n : Nat) : (roundDiv n d : ℚ) * 10 ^ place =
      roundAt place ((n : ℚ) / d * 10 ^ place) := by
    rcases Nat.eq_zero_or_pos n with rfl | some
    · rw [Nat.cast_zero, roundDiv_zero, Nat.cast_zero, zero_div, zero_mul, roundAt_zero,
        Int.cast_zero, zero_mul]
    · have unit := ten_zpow_pos place
      have value : (0 : ℚ) < n / d * 10 ^ place := by positivity
      rw [roundAt_of_pos value, mul_div_cancel_right₀ _ unit.ne', ← round_eq,
        round_natCast_div pos, roundDiv_natCast]
  rcases Int.natAbs_eq n with same | opposite
  · rw [same, Int.cast_natCast]
    exact natural n.natAbs
  · rw [opposite, roundDiv_neg, Int.cast_neg, Int.cast_neg, Int.cast_natCast, neg_mul, neg_div,
      neg_mul, roundAt_neg, natural]

theorem roundAt_of_multiple (n place : Int) : roundAt place (n * 10 ^ place) = n * 10 ^ place := by
  have whole := roundDiv_mul_ten_zpow n Nat.one_pos place
  rw [roundDiv_one, Nat.cast_one, div_one] at whole
  exact whole.symm

end Twice

end ScientificCalculator
