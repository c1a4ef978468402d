import ScientificCalculator.Proofs.Function.QuarterTurn
import ScientificCalculator.Proofs.Function.Symmetry
import ScientificCalculator.Proofs.Function.UnitRange

/-!
Angles as results. An angle in fixed point is put into the unit that is asked for, rounded, and
dropped if it is negligible. All three steps keep the order of angles and change the sign of the
result with that of the angle; together they move the angle by little more than the rounding, or
leave zero for an angle below `10 ^ -50`.
-/

namespace ScientificCalculator

/-- An angle at the working digits, from radians to the other unit. -/
def AngleUnit.fromRadians (unit : AngleUnit) (angle : Int) : Int :=
  match unit with
  | .radians => angle
  | .degrees => (angle * 180 * tenTo workingDigits).tdiv (FixedPoint.pi workingDigits)

/-- What is left of a value after negligible ones are dropped. -/
def kept (q : ℚ) : ℚ := if |q| < 10 ^ (-50 : Int) then 0 else q

theorem kept_mono {p q : ℚ} (le : p ≤ q) : kept p ≤ kept q := by
  unfold kept
  split_ifs with first second second
  · exact le_rfl
  · rw [abs_lt] at first
    rcases le_abs.1 (not_lt.1 second) with high | low
    · exact (ten_zpow_pos _).le.trans high
    · linarith
  · rw [abs_lt] at second
    rcases le_abs.1 (not_lt.1 first) with high | low
    · linarith
    · linarith [ten_zpow_pos (-50)]
  · exact le

namespace Decimal
variable {x : Decimal} {unit : AngleUnit} {angle m n : Int}

section Negligible

/-- A decimal is dropped exactly if it is below `10 ^ -50` in size. -/
theorem toRat_dropNegligible (held : x.Held) : x.dropNegligible.toRat = kept x.toRat := by
  by_cases zero : x.mantissa = 0
  · have value := toRat_eq_zero_iff.2 zero
    rw [dropNegligible, if_neg (fun negligible => negligible.1 zero), kept, value]
    simp
  · have low := ten_zpow_firstPlace_le zero
    have high := lt_ten_zpow_firstPlace x
    have order : x.leadingOrder < leastResultOrder ↔ x.firstPlace < -50 := by
      have least := held.least
      have digits := digitCount_pos x.mantissa.natAbs
      rw [leadingOrder, saturate, leastResultOrder, firstPlace]
      simp only [leastExponent, greatestExponent] at *
      omega
    have small : |x.toRat| < 10 ^ (-50 : Int) ↔ x.firstPlace < -50 := by
      constructor
      · exact firstPlace_lt_of_abs_lt zero
      · intro place
        exact high.trans_le (zpow_le_zpow_right₀ (by norm_num) place)
    by_cases negligible : x.firstPlace < -50
    · rw [dropNegligible, if_pos ⟨zero, order.2 negligible⟩, kept, if_pos (small.2 negligible),
        toRat_zero]
    · rw [dropNegligible, if_neg (fun both => negligible (order.1 both.2)), kept,
        if_neg (mt small.1 negligible)]

theorem toRat_ofWorking (size : |(n : ℝ)| ≤ 200 * 10 ^ workingDigits) :
    (ofWorking n).toRat = kept (roundSignificant (n * 10 ^ (-workingDigits : Int))) := by
  have below : |(n : ℝ)| < 10 ^ 78 := by
    refine size.trans_lt ?_
    norm_num [tenPow_workingDigits]
  have length : digitCount n.natAbs ≤ 1000 :=
    (digitCount_natAbs_le (by decide) below).trans (by decide)
  have held : (ofScaled n workingDigits).Held := held_ofParts _ _
  rw [ofWorking, toRat_dropNegligible held, toRat_ofScaled (by decide) length]

/-- The rounding of a working number that is not too large. -/
theorem abs_ofScaled_sub_div_le (size : |(n : ℝ)| ≤ 200 * 10 ^ workingDigits) :
    |((ofScaled n workingDigits).toRat : ℝ) - n / 10 ^ workingDigits| ≤
      |(n : ℝ) / 10 ^ workingDigits| / (2 * 10 ^ 59) := by
  have power : (0 : ℝ) < 10 ^ workingDigits := by positivity
  have exactly : |(n : ℝ) - 10 ^ workingDigits * (n / 10 ^ workingDigits)| ≤ 0 := by
    rw [mul_div_cancel₀ _ power.ne', sub_self, abs_zero]
  have value : |(n : ℝ) / 10 ^ workingDigits| ≤ 200 := by
    rwa [abs_div, abs_of_pos power, div_le_iff₀ power]
  have rounded := abs_ofScaled_sub_le (by decide : workingDigits ≤ 1000) exactly
    (value.trans (by norm_num)) (by norm_num)
  rwa [zero_div, mul_zero, add_zero] at rounded

/-- Rounding and dropping keep the order of working numbers. -/
theorem toRat_ofWorking_mono (le : m ≤ n) (size : |(m : ℝ)| ≤ 200 * 10 ^ workingDigits)
    (size' : |(n : ℝ)| ≤ 200 * 10 ^ workingDigits) : (ofWorking m).toRat ≤ (ofWorking n).toRat := by
  have le' : (m : ℚ) ≤ n := by exact_mod_cast le
  rw [toRat_ofWorking size, toRat_ofWorking size']
  apply kept_mono
  apply roundSignificant_mono
  exact mul_le_mul_of_nonneg_right le' (ten_zpow_pos _).le

/-- A working number next to a decimal that is not negligible makes that decimal. -/
theorem ofWorking_eq_of_near (held : x.Held) (large : 10 ^ (-50 : Int) ≤ |x.toRat|)
    (near : |(n : ℝ) - 10 ^ workingDigits * (x.toRat : ℝ)| ≤
      10 ^ workingDigits * 10 ^ (x.firstPlace - 1 - precision)) : ofWorking n = x := by
  have nonzero : x.mantissa ≠ 0 := by
    intro zero
    rw [toRat_eq_zero_iff.2 zero, abs_zero] at large
    exact absurd (ten_zpow_pos (-50)) (not_lt.2 large)
  have near' : |(n : ℚ) - 10 ^ workingDigits * x.toRat| ≤
      10 ^ workingDigits * 10 ^ (x.firstPlace - 1 - precision) := by
    apply (Rat.cast_le (K := ℝ)).1
    push_cast
    exact near
  have whole : x.dropNegligible.toRat = x.toRat := by
    rw [toRat_dropNegligible held, kept, if_neg (not_lt.2 large)]
  rw [ofWorking, ofScaled_eq_of_near held nonzero (by decide) near']
  exact eq_of_toRat_eq (canonical_dropNegligible held.canonical) held.canonical whole

end Negligible

section Units

theorem AngleUnit.exists_factor (unit : AngleUnit) :
    ∃ factor : ℝ, 0 < factor ∧ factor ≤ 1 ∧ ∀ a, unit.toRadians a = a * factor := by
  cases unit with
  | radians => exact ⟨1, one_pos, le_rfl, fun a => (mul_one a).symm⟩
  | degrees =>
    refine ⟨Real.pi / 180, by positivity, ?_, fun a => mul_div_assoc a Real.pi 180⟩
    linarith [Real.pi_lt_four]

theorem fromRadians_neg (unit : AngleUnit) (angle : Int) :
    unit.fromRadians (-angle) = -unit.fromRadians angle := by
  cases unit with
  | radians => rfl
  | degrees => simp only [AngleUnit.fromRadians, Int.neg_mul, Int.neg_tdiv]

theorem pi_pos_of_few {digits : Nat} (few : digits ≤ 10000) (several : 2 ≤ digits) :
    0 < FixedPoint.pi digits := by
  obtain ⟨low, -⟩ := halfTurn_bounds few several
  exact_mod_cast (by positivity : (0 : ℝ) < 3 * 10 ^ digits).trans_le low

theorem halfTurn_pos : 0 < FixedPoint.pi workingDigits := pi_pos_of_few (by decide) (by decide)

theorem fromRadians_mono (unit : AngleUnit) (le : m ≤ n) :
    unit.fromRadians m ≤ unit.fromRadians n := by
  cases unit with
  | radians => exact le
  | degrees =>
    apply Int.tdiv_le_tdiv halfTurn_pos
    exact mul_le_mul_of_nonneg_right (mul_le_mul_of_nonneg_right le (by decide))
      (Int.natCast_nonneg _)

theorem ofRadians_eq (unit : AngleUnit) (angle : Int) :
    ofRadians unit angle = ofWorking (unit.fromRadians angle) := by
  cases unit <;> rfl

theorem ofRadians_neg (unit : AngleUnit) (angle : Int) :
    ofRadians unit (-angle) = -ofRadians unit angle := by
  rw [ofRadians_eq, ofRadians_eq, fromRadians_neg, ofWorking_neg]

section HalfTurn
variable (half : |angle| ≤ FixedPoint.pi workingDigits)
include half

/-- At most half a turn is at most 180 in either unit. -/
theorem abs_fromRadians_le (unit : AngleUnit) :
    |(unit.fromRadians angle : ℝ)| ≤ 180 * 10 ^ workingDigits := by
  have power : (0 : ℝ) < 10 ^ workingDigits := by positivity
  have positive : (0 : ℝ) < FixedPoint.pi workingDigits := by exact_mod_cast halfTurn_pos
  have half' : |(angle : ℝ)| ≤ FixedPoint.pi workingDigits := by exact_mod_cast half
  cases unit with
  | radians =>
    obtain ⟨-, high⟩ := halfTurn_bounds (by decide : workingDigits ≤ 10000) (by decide)
    exact half'.trans (high.trans (by linarith))
  | degrees =>
    refine (abs_tdiv_le_div_abs _ _).trans ?_
    rw [abs_of_pos positive, div_le_iff₀ positive]
    push_cast
    rw [realCast_tenTo, abs_mul, abs_mul, abs_of_pos power,
      abs_of_pos (by norm_num : (0 : ℝ) < 180)]
    linarith [mul_le_mul_of_nonneg_right half' power.le]

end HalfTurn

/-- The conversion to degrees is truncated. -/
theorem abs_degrees_sub_lt (angle : Int) :
    |(AngleUnit.degrees.fromRadians angle : ℝ) -
      angle * 180 * 10 ^ workingDigits / FixedPoint.pi workingDigits| < 1 := by
  have positive := halfTurn_pos
  obtain ⟨p, turn⟩ := Int.eq_ofNat_of_zero_le positive.le
  have truncated := abs_tdiv_sub_lt (angle * 180 * tenTo workingDigits) (by omega : 0 < p)
  push_cast at truncated
  rwa [AngleUnit.fromRadians, turn, Int.cast_natCast, ← realCast_tenTo]

section HalfTurn
variable (half : |angle| ≤ FixedPoint.pi workingDigits)
include half

/-- The conversion to the other unit loses two units of the last working digit. -/
theorem abs_toRadians_fromRadians_sub_le (unit : AngleUnit) :
    |10 ^ workingDigits * unit.toRadians (unit.fromRadians angle / 10 ^ workingDigits) - angle| ≤
      2 := by
  have power : (0 : ℝ) < 10 ^ workingDigits := by positivity
  cases unit with
  | radians =>
    show |10 ^ workingDigits * ((angle : ℝ) / 10 ^ workingDigits) - angle| ≤ 2
    rw [mul_div_cancel₀ _ power.ne', sub_self, abs_zero]
    exact two_pos.le
  | degrees =>
    have positive : (0 : ℝ) < FixedPoint.pi workingDigits := by exact_mod_cast halfTurn_pos
    have half' : |(angle : ℝ)| ≤ FixedPoint.pi workingDigits := by exact_mod_cast half
    have circle := abs_halfTurn_sub_le (by decide : workingDigits ≤ 10000)
    have truncated := abs_degrees_sub_lt angle
    generalize AngleUnit.degrees.fromRadians angle = v at truncated ⊢
    generalize (FixedPoint.pi workingDigits : ℝ) = p at positive half' circle truncated
    have apart : 10 ^ workingDigits * AngleUnit.degrees.toRadians (v / 10 ^ workingDigits) - angle =
        (v - angle * 180 * 10 ^ workingDigits / p) * (Real.pi / 180) -
          angle / p * (p - 10 ^ workingDigits * Real.pi) := by
      rw [AngleUnit.toRadians]
      field_simp
      ring
    have factor : Real.pi / 180 ≤ 1 / 10 := by linarith [Real.pi_lt_four]
    have converted := mul_le_mul truncated.le factor (by positivity) zero_le_one
    have share : |(angle : ℝ) / p| ≤ 1 := by
      rw [abs_div, abs_of_pos positive]
      exact div_le_one_of_le₀ half' positive.le
    have lost := mul_le_mul share circle (abs_nonneg _) zero_le_one
    rw [apart]
    refine (abs_sub _ _).trans ?_
    rw [abs_mul, abs_mul, abs_of_pos (by positivity : (0 : ℝ) < Real.pi / 180)]
    linarith

end HalfTurn

theorem toRat_ofRadians_mono (unit : AngleUnit) (le : m ≤ n)
    (first : |m| ≤ FixedPoint.pi workingDigits) (second : |n| ≤ FixedPoint.pi workingDigits) :
    (ofRadians unit m).toRat ≤ (ofRadians unit n).toRat := by
  rw [ofRadians_eq, ofRadians_eq]
  apply toRat_ofWorking_mono (fromRadians_mono unit le)
  · linarith [abs_fromRadians_le first unit, pow_pos (by norm_num : (0 : ℝ) < 10) workingDigits]
  · linarith [abs_fromRadians_le second unit, pow_pos (by norm_num : (0 : ℝ) < 10) workingDigits]

theorem ofRadians_zero (unit : AngleUnit) : ofRadians unit 0 = zero := by
  have none : unit.fromRadians 0 = 0 := by
    cases unit <;> simp [AngleUnit.fromRadians]
  rw [ofRadians_eq, none]
  exact ofWorking_eq_zero (by norm_num)

theorem held_ofRadians (unit : AngleUnit) (angle : Int) : (ofRadians unit angle).Held := by
  rw [ofRadians_eq]
  exact held_ofWorking _

/-- The angle is moved by the rounding, and a little by the conversion. -/
theorem abs_toRadians_rounded_sub_le (half : |angle| ≤ FixedPoint.pi workingDigits)
    (unit : AngleUnit) :
    |unit.toRadians (ofScaled (unit.fromRadians angle) workingDigits).toRat -
      angle / 10 ^ workingDigits| ≤ 2 / 10 ^ 59 := by
  have power : (0 : ℝ) < 10 ^ workingDigits := by positivity
  obtain ⟨factor, pos, -, linear⟩ := AngleUnit.exists_factor unit
  have size := abs_fromRadians_le half unit
  have converted := abs_toRadians_fromRadians_sub_le half unit
  have half' : |(angle : ℝ)| ≤ FixedPoint.pi workingDigits := by exact_mod_cast half
  obtain ⟨-, halfTurn⟩ := halfTurn_bounds (by decide : workingDigits ≤ 10000) (by decide)
  have rounded := abs_ofScaled_sub_div_le (by linarith : |(unit.fromRadians angle : ℝ)| ≤ _)
  have exactly : (angle : ℝ) = 10 ^ workingDigits * (angle / 10 ^ workingDigits) := by
    rw [mul_div_cancel₀ _ power.ne']
  have radians : |(angle : ℝ) / 10 ^ workingDigits| ≤ 7 / 2 := by
    rw [abs_div, abs_of_pos power, div_le_iff₀ power]
    exact half'.trans halfTurn
  rw [linear, exactly, abs_scaled_sub, ← le_div_iff₀' power, tenPow_workingDigits] at converted
  rw [linear]
  rw [tenPow_workingDigits] at radians rounded ⊢
  generalize (unit.fromRadians angle : ℝ) / 10 ^ 75 = v at rounded converted
  generalize (angle : ℝ) / 10 ^ 75 = a at converted radians ⊢
  generalize ((ofScaled (unit.fromRadians angle) workingDigits).toRat : ℝ) = r at rounded ⊢
  have moved : |r * factor - v * factor| ≤ |v * factor| / (2 * 10 ^ 59) := by
    rw [← sub_mul, abs_mul, abs_mul, abs_of_pos pos, mul_div_right_comm]
    exact mul_le_mul_of_nonneg_right rounded pos.le
  have triangle := abs_sub_abs_le_abs_sub (v * factor) a
  exact (abs_sub_le _ (v * factor) _).trans (by linarith)

/-- The result is zero in place of an angle below `10 ^ -50`, or the angle up to the rounding. -/
theorem ofRadians_cases (half : |angle| ≤ FixedPoint.pi workingDigits) (unit : AngleUnit) :
    ofRadians unit angle = zero ∧ |(angle : ℝ) / 10 ^ workingDigits| ≤ 1.01 / 10 ^ 50 ∨
      |unit.toRadians (ofRadians unit angle).toRat - angle / 10 ^ workingDigits| ≤ 2 / 10 ^ 59 := by
  have near := abs_toRadians_rounded_sub_le half unit
  have held : (ofScaled (unit.fromRadians angle) workingDigits).Held := held_ofParts _ _
  have result := toRat_dropNegligible held
  rw [ofRadians_eq, ofWorking]
  generalize ofScaled (unit.fromRadians angle) workingDigits = r at near held result ⊢
  by_cases tiny : |r.toRat| < 10 ^ (-50 : Int)
  · left
    rw [kept, if_pos tiny] at result
    refine ⟨eq_of_toRat_eq (canonical_dropNegligible held.canonical) canonical_zero
      (result.trans toRat_zero.symm), ?_⟩
    have tiny' := (Rat.cast_lt (K := ℝ)).2 tiny
    push_cast at tiny'
    obtain ⟨factor, pos, least, linear⟩ := AngleUnit.exists_factor unit
    have shorter : |unit.toRadians r.toRat| ≤ |(r.toRat : ℝ)| := by
      rw [linear, abs_mul, abs_of_pos pos]
      exact mul_le_of_le_one_right (abs_nonneg _) least
    have triangle := abs_sub_abs_le_abs_sub ((angle : ℝ) / 10 ^ workingDigits)
      (unit.toRadians r.toRat)
    rw [abs_sub_comm] at triangle
    norm_num at tiny' near ⊢
    linarith
  · right
    rw [kept, if_neg tiny] at result
    rwa [result]

end Units

end Decimal

end ScientificCalculator
