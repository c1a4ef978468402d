import Mathlib.Analysis.Real.Pi.Bounds
import ScientificCalculator.Function.Trigonometry
import ScientificCalculator.Proofs.Decimal.Order
import ScientificCalculator.Proofs.Decimal.Scaled
import ScientificCalculator.Proofs.FixedPoint.Pi

/-!
The reduction of angles. The reduced angle differs from the given one by whole turns and a few
units of the last working digit. An angle in radians is reduced at as many more digits as it has
before the point, so that the error of the turns is divided by what their number multiplies it with;
an angle in degrees loses its whole turns without any error.
-/

namespace ScientificCalculator

open Real

/-- The angle in radians. -/
noncomputable def AngleUnit.toRadians (unit : AngleUnit) (angle : ℝ) : ℝ :=
  match unit with
  | .radians => angle
  | .degrees => angle * π / 180

/-- Within half a turn, and whole turns and a few units away from the angle `value`. -/
structure Reduced (angle : Int) (value : ℝ) : Prop where
  small : |(angle : ℝ)| ≤ 4 * 10 ^ workingDigits
  near : ∃ turns : Int,
    |(angle : ℝ) - 10 ^ workingDigits * (value - turns * (2 * π))| ≤ 10

/-- What an angle is reduced to stays the same after whole turns. -/
theorem Reduced.add_turns {angle : Int} {value : ℝ} (reduced : Reduced angle value)
    (turns : Int) : Reduced angle (value + turns * (2 * π)) := by
  obtain ⟨taken, near⟩ := reduced.near
  refine ⟨reduced.small, taken + turns, ?_⟩
  have same : value + turns * (2 * π) - (taken + turns : Int) * (2 * π) =
      value - taken * (2 * π) := by
    push_cast
    ring
  rwa [same]

section Turn
open FixedPoint

/-- With guard digits enough for any angle, a half turn is accurate to little more than a unit. -/
theorem abs_halfTurn_sub_le {digits : Nat} (few : digits ≤ 10000) :
    |(FixedPoint.pi digits : ℝ) - 10 ^ digits * π| ≤ 11 / 10 := by
  have digits' : (digits : ℝ) ≤ 10000 := by exact_mod_cast few
  refine (abs_pi_sub_lt digits).le.trans ?_
  rw [← le_sub_iff_add_le', div_le_iff₀ (by norm_num)]
  norm_num
  linarith

theorem halfTurn_bounds {digits : Nat} (few : digits ≤ 10000) (several : 2 ≤ digits) :
    3 * (10 : ℝ) ^ digits ≤ FixedPoint.pi digits ∧
      (FixedPoint.pi digits : ℝ) ≤ 7 / 2 * 10 ^ digits := by
  obtain ⟨under, upper⟩ := abs_le.1 (abs_halfTurn_sub_le few)
  have power : (100 : ℝ) ≤ 10 ^ digits := by
    refine le_trans (by norm_num) (pow_le_pow_right₀ (by norm_num : (1 : ℝ) ≤ 10) several)
  have low := mul_le_mul_of_nonneg_left pi_gt_d2.le (by linarith : (0 : ℝ) ≤ 10 ^ digits)
  have high := mul_le_mul_of_nonneg_left pi_lt_d2.le (by linarith : (0 : ℝ) ≤ 10 ^ digits)
  constructor <;> linarith

/-- What is left of a number after the nearest multiple of a positive one. -/
theorem abs_sub_roundDiv_mul_le (n : Int) {d : Int} (pos : 0 < d) :
    |((n - roundDiv n d.toNat * d : Int) : ℝ)| ≤ d / 2 ∧
      |(roundDiv n d.toNat : ℝ)| ≤ |(n : ℝ)| / d + 1 / 2 := by
  have pos' : (0 : ℝ) < d := by exact_mod_cast pos
  have whole : ((d.toNat : Nat) : ℝ) = d := by
    exact_mod_cast Int.toNat_of_nonneg pos.le
  have nearest := (Rat.cast_le (K := ℝ)).2 (abs_roundDiv_sub_le n (by omega : 0 < d.toNat))
  push_cast at nearest
  rw [whole] at nearest
  constructor
  · have product : ((n - roundDiv n d.toNat * d : Int) : ℝ) =
        -((roundDiv n d.toNat - n / d) * d) := by
      push_cast
      field_simp
      ring
    rw [product, abs_neg, abs_mul, abs_of_pos pos']
    exact (mul_le_mul_of_nonneg_right nearest pos'.le).trans (by linarith)
  · have triangle := abs_sub_abs_le_abs_sub (roundDiv n d.toNat : ℝ) (n / d)
    rw [abs_div, abs_of_pos pos'] at triangle
    linarith

/-- The number of whole turns in an angle of at most `10 ^ extra`. -/
theorem abs_turns_le {n half : Int} {value : ℝ} {digits extra : Nat}
    (scaled : |(n : ℝ) - 10 ^ digits * value| ≤ 1 / 2) (size : |value| ≤ 10 ^ extra)
    (low : 3 * (10 : ℝ) ^ digits ≤ half) : |(n : ℝ)| / (half * 2) + 1 / 2 ≤ 10 ^ extra := by
  have power : (1 : ℝ) ≤ 10 ^ digits := one_le_pow₀ (by norm_num)
  have power' : (1 : ℝ) ≤ 10 ^ extra := one_le_pow₀ (by norm_num)
  have large := abs_le_of_near scaled size
  have wider := mul_le_mul power power' zero_le_one (by linarith)
  have turns : |(n : ℝ)| / (half * 2) ≤ 10 ^ extra / 2 := by
    rw [div_le_iff₀ (by linarith)]
    have more := mul_le_mul_of_nonneg_left low (by linarith : (0 : ℝ) ≤ 10 ^ extra)
    linarith
  linarith

/-- Every turn that is taken away adds twice the error of the half turn. -/
theorem abs_sub_turns_le (n q half : Int) (scale value : ℝ) :
    |((n - q * (half * 2) : Int) : ℝ) - scale * (value - q * (2 * π))| ≤
      |n - scale * value| + 2 * (|(q : ℝ)| * |half - scale * π|) := by
  have apart : ((n - q * (half * 2) : Int) : ℝ) - scale * (value - q * (2 * π)) =
      (n - scale * value) - 2 * (q * (half - scale * π)) := by
    push_cast
    ring
  rw [apart]
  refine (abs_sub _ _).trans_eq ?_
  rw [abs_mul, abs_two, abs_mul]

/-- The guard digits take down the error of all the turns. -/
theorem reduced_of_scaled {n half : Int} {value : ℝ} {extra : Nat}
    (scaled : |(n : ℝ) - 10 ^ (workingDigits + extra) * value| ≤ 1 / 2)
    (size : |value| ≤ 10 ^ extra)
    (accurate : |(half : ℝ) - 10 ^ (workingDigits + extra) * π| ≤ 11 / 10)
    (low : 3 * (10 : ℝ) ^ (workingDigits + extra) ≤ half)
    (high : (half : ℝ) ≤ 7 / 2 * 10 ^ (workingDigits + extra)) :
    Reduced ((n - roundDiv n (half * 2).toNat * (half * 2)).tdiv (tenTo extra)) value := by
  have power : (0 : ℝ) < 10 ^ extra := by positivity
  have power' : (1 : ℝ) ≤ 10 ^ extra := one_le_pow₀ (by norm_num)
  have pos : 0 < half * 2 := by
    have positive : (0 : ℝ) < half := lt_of_lt_of_le (by positivity) low
    have positive' : 0 < half := by exact_mod_cast positive
    omega
  obtain ⟨left, turns⟩ := abs_sub_roundDiv_mul_le n pos
  push_cast at left turns
  have few := turns.trans (abs_turns_le scaled size low)
  generalize roundDiv n (half * 2).toNat = q at *
  have near : |((n - q * (half * 2) : Int) : ℝ) -
      10 ^ (workingDigits + extra) * (value - q * (2 * π))| ≤ 3 * 10 ^ extra := by
    have lost := mul_le_mul few accurate (abs_nonneg _) power.le
    linarith [abs_sub_turns_le n q half (10 ^ (workingDigits + extra)) value]
  have dropped := abs_tdiv_tenTo_sub_lt extra near
  have shorter := abs_tdiv_le (n - q * (half * 2)) (tenTo extra)
  rw [mul_div_cancel_right₀ _ power.ne'] at dropped
  rw [realCast_tenTo] at shorter
  constructor
  · refine shorter.trans ?_
    rw [div_le_iff₀ power]
    push_cast
    refine left.trans ?_
    rw [pow_add] at high
    linarith [mul_pos (by positivity : (0 : ℝ) < 10 ^ workingDigits) power]
  · exact ⟨q, dropped.le.trans (by norm_num)⟩

end Turn

namespace Decimal
variable {x : Decimal}

theorem reduced_radians (held : x.Held) (inRange : x.order ≤ greatestAngleOrder) :
    Reduced x.reducedRadians x.toRat := by
  have high : x.order ≤ 1000 := inRange
  have range : (1000 : Int) ≤ maxOrder := by decide
  have digits : workingDigits = 75 := rfl
  have few : workingDigits + (x.order + 1).toNat ≤ 10000 := by omega
  have size := (Rat.cast_le (K := ℝ)).2 (abs_toRat_le held (high.trans range))
  push_cast at size
  have within : x.exponent + (workingDigits + (x.order + 1).toNat : Nat) ≤ greatestExponent := by
    have exponent := exponent_le_of_order_le held (by decide) high (by decide)
    simp only [greatestExponent]
    omega
  have greatest : (10000 : Int) ≤ greatestExponent := by decide
  have scaled := abs_toScaled_sub_real_le held (by omega) within
  obtain ⟨low, high'⟩ := halfTurn_bounds few (by omega)
  exact reduced_of_scaled scaled size (abs_halfTurn_sub_le few) low high'

/-- An angle without its whole turns, which are counted in degrees. -/
structure WithoutTurns (y x : Decimal) : Prop where
  held : y.Held
  small : |y.toRat| ≤ 360
  turns : ∃ turns : Int, x.toRat = y.toRat + 360 * turns

theorem abs_lt_fullTurn_iff (held : x.Held) : x.abs < ofInt 360 ↔ |x.toRat| < 360 := by
  have full : (ofInt 360).toRat = 360 := toRat_ofInt (digitCount_le (by decide) (by decide))
  rw [lt_iff_toRat_lt (canonical_abs held.canonical) (canonical_ofInt 360), toRat_abs, full]

/-- What is left of an angle when all its whole turns are taken off. -/
structure Residue (y x : Decimal) : Prop where
  held : y.Held
  natural : 0 ≤ y.toRat
  less : y.toRat < 360
  turns : ∃ turns : Int, x.toRat = y.toRat + 360 * turns

theorem Residue.withoutTurns {y : Decimal} (residue : Residue y x) : WithoutTurns y x := by
  refine ⟨residue.held, ?_, residue.turns⟩
  rw [abs_of_nonneg residue.natural]
  exact residue.less.le

/-- The residue of a mantissa by the units that make up a turn at its exponent. -/
theorem residue_ofParts {m e : Int} {unit : Nat} (value : x.toRat = m * 10 ^ e)
    (fullTurn : (unit : ℚ) * 10 ^ e = 360) (short : unit ≤ tenTo precision)
    (least : leastExponent ≤ e) (most : e + 2 * precision ≤ greatestExponent) :
    Residue (ofParts (m % unit) e) x := by
  have pos : 0 < unit := by
    rcases Nat.eq_zero_or_pos unit with rfl | pos
    · norm_num at fullTurn
    · exact pos
  have parts := Int.emod_add_mul_ediv m unit
  have below := Int.emod_lt_of_pos m (by omega : (0 : Int) < unit)
  obtain ⟨n, residue⟩ := Int.eq_ofNat_of_zero_le (Int.emod_nonneg m (by omega : (unit : Int) ≠ 0))
  rw [residue] at parts below ⊢
  have digits : digitCount n ≤ precision := digitCount_le (by decide) (by omega)
  have rest := toRat_ofParts_of_short digits least most
  refine ⟨held_ofParts _ _, ?_, ?_, m / unit, ?_⟩
  · rw [rest]
    exact mul_nonneg n.cast_nonneg (ten_zpow_pos e).le
  · have less : (n : ℚ) < unit := by exact_mod_cast below
    rw [rest, ← fullTurn]
    exact mul_lt_mul_of_pos_right less (ten_zpow_pos e)
  · have whole : (m : ℚ) = n + unit * (m / unit : Int) := by exact_mod_cast parts.symm
    rw [value, rest, ← fullTurn, whole]
    ring

theorem withinTurn_of_lt (inside : x.abs < ofInt 360) : x.withinTurn = x := if_pos inside

/-- An angle of a turn or more is reduced to its residue. No digit is lost, since the residue has no
more places than the angle and fewer digits before the point. -/
theorem residue_withinTurn (held : x.Held) (beyond : ¬ x.abs < ofInt 360) :
    Residue x.withinTurn x := by
  unfold withinTurn
  rw [if_neg beyond]
  split
  · rename_i natural
    have value := toRat_widen natural
    rw [sub_zero] at value
    exact residue_ofParts value (by norm_num) (by decide) (by decide) (by decide)
  · rename_i fractional
    have fullTurn : ((tenTo x.exponent.natAbs * 360 : Nat) : ℚ) * 10 ^ x.exponent = 360 := by
      obtain ⟨k, negative⟩ : ∃ k : Nat, x.exponent = -k := ⟨x.exponent.natAbs, by omega⟩
      rw [negative, Int.natAbs_neg, Int.natAbs_natCast, Nat.cast_mul, natCast_tenTo, zpow_neg,
        zpow_natCast]
      field_simp
      norm_num
    have large : tenTo x.exponent.natAbs * 360 ≤ x.mantissa.natAbs := by
      have outside := not_lt.1 (mt (abs_lt_fullTurn_iff held).2 beyond)
      rw [abs_toRat, ← fullTurn] at outside
      exact_mod_cast le_of_mul_le_mul_right outside (ten_zpow_pos x.exponent)
    have short : tenTo x.exponent.natAbs * 360 ≤ tenTo precision :=
      (large.trans (lt_tenTo_digitCount _).le).trans
        (tenTo_le_tenTo (digitCount_of_canonical held.canonical))
    refine residue_ofParts rfl fullTurn short held.least ?_
    simp only [precision, greatestExponent]
    omega

theorem withoutTurns (held : x.Held) : WithoutTurns x.withinTurn x := by
  by_cases inside : x.abs < ofInt 360
  · rw [withinTurn_of_lt inside]
    exact ⟨held, ((abs_lt_fullTurn_iff held).1 inside).le, 0, by simp⟩
  · exact (residue_withinTurn held inside).withoutTurns

/-- A turn that is added or taken away brings an angle within half a turn. -/
theorem foldHalfTurn_eq (angle halfTurn : Int) :
    ∃ turns : Int, foldHalfTurn angle halfTurn = angle - turns * (halfTurn * 2) ∧
      |(turns : ℝ)| ≤ 1 := by
  unfold foldHalfTurn
  split
  · exact ⟨1, by omega, by norm_num⟩
  · split
    · exact ⟨-1, by omega, by norm_num⟩
    · exact ⟨0, by omega, by norm_num⟩

theorem abs_foldHalfTurn_le {angle halfTurn bound : Int} (half : halfTurn ≤ bound)
    (size : |angle| ≤ halfTurn * 2 + bound) :
    |foldHalfTurn angle halfTurn| ≤ bound := by
  obtain ⟨low, high⟩ := abs_le.1 size
  rw [abs_le]
  unfold foldHalfTurn
  split
  · omega
  · split
    · omega
    · omega

/-- An angle in degrees of at most a turn, in radians at the working digits. -/
def scaledDegrees (n : Int) : Int :=
  (n * FixedPoint.pi workingDigits).tdiv (tenTo workingDigits * 180)

theorem abs_scaledDegrees_sub_le {n : Int} {value : ℝ}
    (scaled : |(n : ℝ) - 10 ^ workingDigits * value| ≤ 1 / 2) (small : |value| ≤ 360) :
    |(scaledDegrees n : ℝ) - 10 ^ workingDigits * (value * π / 180)| ≤ 5 := by
  have power : (1 : ℝ) ≤ 10 ^ workingDigits := one_le_pow₀ (by norm_num)
  have halfTurn := abs_halfTurn_sub_le (by decide : workingDigits ≤ 10000)
  have truncated := abs_tdiv_sub_lt (n * FixedPoint.pi workingDigits)
    (Nat.mul_pos (tenTo_pos workingDigits) (by norm_num : 0 < 180))
  have size : |(n : ℝ)| ≤ 361 * 10 ^ workingDigits := by
    linarith [abs_le_of_near scaled small]
  have apart : ((n * FixedPoint.pi workingDigits : Int) : ℝ) / (tenTo workingDigits * 180 : Nat) -
      10 ^ workingDigits * (value * π / 180) =
      (n * (FixedPoint.pi workingDigits - 10 ^ workingDigits * π) +
        10 ^ workingDigits * π * (n - 10 ^ workingDigits * value)) /
        (180 * 10 ^ workingDigits) := by
    push_cast
    rw [realCast_tenTo]
    field_simp
    ring
  have untruncated :
      |((n * FixedPoint.pi workingDigits : Int) : ℝ) / (tenTo workingDigits * 180 : Nat) -
        10 ^ workingDigits * (value * π / 180)| ≤ 4 := by
    have first := mul_le_mul size halfTurn (abs_nonneg _) (by linarith)
    have second := mul_le_mul_of_nonneg_left scaled
      (by positivity : (0 : ℝ) ≤ 10 ^ workingDigits * π)
    have third := mul_le_mul_of_nonneg_left pi_lt_d2.le (by linarith : (0 : ℝ) ≤ 10 ^ workingDigits)
    rw [apart, abs_div, abs_of_pos (by positivity : (0 : ℝ) < 180 * 10 ^ workingDigits),
      div_le_iff₀ (by positivity)]
    refine (abs_add_le _ _).trans ?_
    rw [abs_mul, abs_mul, abs_of_pos (by positivity : (0 : ℝ) < 10 ^ workingDigits * π)]
    linarith
  have computed : scaledDegrees n =
      (n * FixedPoint.pi workingDigits).tdiv ((tenTo workingDigits * 180 : Nat) : Int) := by
    rw [scaledDegrees, Nat.cast_mul]
    rfl
  rw [computed]
  exact (abs_sub_le _ _ _).trans ((add_le_add truncated.le untruncated).trans (by norm_num))

/-- At most a turn in degrees is at most a turn and a little more in radians. -/
theorem abs_scaledDegrees_le {n : Int} {value : ℝ}
    (scaled : |(n : ℝ) - 10 ^ workingDigits * value| ≤ 1 / 2) (small : |value| ≤ 360) :
    |scaledDegrees n| ≤ FixedPoint.pi workingDigits * 2 + 4 * tenTo workingDigits := by
  have power : (100 : ℝ) ≤ 10 ^ workingDigits := by norm_num [tenPow_workingDigits]
  obtain ⟨low, -⟩ := halfTurn_bounds (by decide : workingDigits ≤ 10000) (by decide)
  have radians : |value * π / 180| ≤ 7 := by
    rw [abs_div, abs_mul, abs_of_pos pi_pos, abs_of_pos (by norm_num : (0 : ℝ) < 180),
      div_le_iff₀ (by norm_num)]
    have product := mul_le_mul small pi_lt_d2.le pi_pos.le (by norm_num)
    linarith
  have size : |(scaledDegrees n : ℝ)| ≤
      FixedPoint.pi workingDigits * 2 + 4 * 10 ^ workingDigits := by
    linarith [abs_le_of_near (abs_scaledDegrees_sub_le scaled small) radians]
  rw [← realCast_tenTo] at size
  exact_mod_cast size

theorem reduced_of_degrees {n : Int} {value : ℝ}
    (scaled : |(n : ℝ) - 10 ^ workingDigits * value| ≤ 1 / 2) (small : |value| ≤ 360) :
    Reduced (foldHalfTurn (scaledDegrees n) (FixedPoint.pi workingDigits))
      (value * π / 180) := by
  have halfTurn := abs_halfTurn_sub_le (by decide : workingDigits ≤ 10000)
  constructor
  · obtain ⟨-, high⟩ := halfTurn_bounds (by decide : workingDigits ≤ 10000) (by decide)
    have half : FixedPoint.pi workingDigits ≤ 4 * tenTo workingDigits := by
      have wider : (FixedPoint.pi workingDigits : ℝ) ≤ 4 * (tenTo workingDigits : Nat) := by
        rw [realCast_tenTo]
        linarith [pow_pos (by norm_num : (0 : ℝ) < 10) workingDigits]
      exact_mod_cast wider
    rw [← realCast_tenTo]
    exact_mod_cast abs_foldHalfTurn_le half (abs_scaledDegrees_le scaled small)
  · obtain ⟨folds, folded, once⟩ := foldHalfTurn_eq (scaledDegrees n) (FixedPoint.pi workingDigits)
    refine ⟨folds, ?_⟩
    have lost := mul_le_mul once halfTurn (abs_nonneg _) zero_le_one
    rw [folded]
    linarith [abs_scaledDegrees_sub_le scaled small, abs_sub_turns_le (scaledDegrees n) folds
      (FixedPoint.pi workingDigits) (10 ^ workingDigits) (value * π / 180)]

theorem exponent_within_of_turn (held : x.Held) (small : |x.toRat| ≤ 360) :
    x.exponent + workingDigits ≤ greatestExponent := by
  have few : x.exponent ≤ 2 := by
    by_cases zero : x.mantissa = 0
    · rw [exponent_of_canonical held.canonical zero]
      decide
    · have below : |x.toRat| < 10 ^ (3 : Int) := small.trans_lt (by norm_num)
      have place := firstPlace_lt_of_abs_lt zero below
      have exponent := exponent_le_firstPlace x
      omega
  simp only [workingDigits, precision, greatestExponent]
  omega

theorem reduced_degrees (held : x.Held) : Reduced x.reducedDegrees (x.toRat * π / 180) := by
  obtain ⟨held', small, turns, value⟩ := withoutTurns held
  have small' := (Rat.cast_le (K := ℝ)).2 small
  push_cast at small'
  have scaled := abs_toScaled_sub_real_le held' (by decide) (exponent_within_of_turn held' small)
  have radians : (x.toRat : ℝ) * π / 180 = x.withinTurn.toRat * π / 180 + turns * (2 * π) := by
    rw [value]
    push_cast
    ring
  rw [radians]
  exact (reduced_of_degrees scaled small').add_turns turns

theorem reducedAngle_radians (inRange : x.order ≤ greatestAngleOrder) :
    reducedAngle .radians x = .ok x.reducedRadians := if_neg (not_lt.2 inRange)

theorem reducedAngle_degrees (inRange : x.order ≤ greatestAngleOrder) :
    reducedAngle .degrees x = .ok x.reducedDegrees := if_neg (not_lt.2 inRange)

/-- Every angle that is admitted is reduced. -/
theorem reducedAngle_eq_ok (held : x.Held) (inRange : x.order ≤ greatestAngleOrder)
    (unit : AngleUnit) :
    ∃ angle, reducedAngle unit x = .ok angle ∧ Reduced angle (unit.toRadians x.toRat) := by
  cases unit with
  | radians => exact ⟨_, reducedAngle_radians inRange, reduced_radians held inRange⟩
  | degrees => exact ⟨_, reducedAngle_degrees inRange, reduced_degrees held⟩

section Functions
variable {unit : AngleUnit} {angle : Int} (found : reducedAngle unit x = .ok angle)
include found

theorem sin_eq_ok : sin unit x = .ok (ofWorking (FixedPoint.sine angle workingDigits)) := by
  rw [sin, found]
  rfl

theorem cos_eq_ok : cos unit x = .ok (ofWorking (FixedPoint.cosine angle workingDigits)) := by
  rw [cos, found]
  rfl

theorem tan_eq : tan unit x =
    if (ofWorking (FixedPoint.cosine angle workingDigits)).IsZero then
      .error (.domain .undefinedTangent)
    else .ok (ofWorking ((FixedPoint.sine angle workingDigits * tenTo workingDigits).tdiv
      (FixedPoint.cosine angle workingDigits))) := by
  rw [tan, found]
  rfl

end Functions

end Decimal

end ScientificCalculator
