import ScientificCalculator.Proofs.Decimal.Monotone
import ScientificCalculator.Proofs.Function.Circular

/-!
Sine and cosine are never greater than one in size. Near its extrema the series may pass one by a
few units of the last working digit, but decimals next to one are much farther apart than that, so
the rounding always takes it back. So arcsine and arccosine are defined on these results.
-/

namespace ScientificCalculator.Decimal

section Results
variable {x : Decimal} {n : Int} {value : ℝ}

theorem abs_toRat_dropNegligible_le (x : Decimal) : |x.dropNegligible.toRat| ≤ |x.toRat| := by
  unfold dropNegligible
  split
  · rw [toRat_zero, abs_zero]
    exact abs_nonneg _
  · exact le_rfl

/-- A working number that passes one by a few units is rounded back to one. -/
theorem abs_toRat_ofWorking_le_one (unit : |value| ≤ 1)
    (near : |(n : ℝ) - 10 ^ workingDigits * value| ≤ 1000) : |(ofWorking n).toRat| ≤ 1 := by
  have size := abs_le_of_near near unit
  have length : digitCount n.natAbs ≤ 76 := by
    apply digitCount_natAbs_le (by norm_num)
    refine size.trans_lt ?_
    norm_num [tenPow_workingDigits]
  have rounded := toRat_ofScaled (by decide : workingDigits ≤ 1000) (length.trans (by norm_num))
  have size' : |(n : ℚ)| ≤ 10 ^ workingDigits * 1 + 1000 := by exact_mod_cast size
  have barely : |(n : ℚ) * 10 ^ (-workingDigits : Int)| ≤
      one.toRat + 10 ^ (one.firstPlace - 1 - precision) := by
    rw [abs_mul, abs_of_pos (ten_zpow_pos _), zpow_neg, zpow_natCast, ← div_eq_mul_inv,
      div_le_iff₀ (by positivity), toRat_one, firstPlace_one]
    refine size'.trans ?_
    norm_num [workingDigits, precision]
  calc |(ofWorking n).toRat| ≤ |(ofScaled n workingDigits).toRat| := abs_toRat_dropNegligible_le _
    _ ≤ one.toRat := by
        rw [rounded]
        exact abs_roundSignificant_le canonical_one (by decide) barely
    _ = 1 := toRat_one

end Results

section Inverses
variable {x : Decimal} {n : Int}

/-- A fixed-point number of which the arcsine can be computed. It is at most one in size, and unless
it is one, the cosine that the arcsine divides by is positive. -/
structure ArcsineArgument (n : Int) : Prop where
  within : n.natAbs ≤ tenTo workingDigits
  divisor : n.natAbs ≠ tenTo workingDigits →
    0 < FixedPoint.squareRoot (tenTo workingDigits - n * n / tenTo workingDigits).toNat
      workingDigits

theorem arcsineArgument_of_le (within : n.natAbs ≤ tenTo workingDigits) : ArcsineArgument n := by
  refine ⟨within, fun other => ?_⟩
  have scale := tenTo_pos workingDigits
  have less : n.natAbs * n.natAbs < tenTo workingDigits * tenTo workingDigits :=
    Nat.mul_self_lt_mul_self (Nat.lt_of_le_of_ne within other)
  have square : n * n / tenTo workingDigits < tenTo workingDigits := by
    apply Int.ediv_lt_of_lt_mul (by exact_mod_cast scale)
    rw [← Int.natAbs_mul_self]
    exact_mod_cast less
  have radicand : 0 < (tenTo workingDigits - n * n / tenTo workingDigits).toNat := by omega
  rw [FixedPoint.squareRoot, Nat.sqrt_pos]
  exact Nat.mul_pos radicand scale

/-- A whole bound of an angle's size is one of its working number. -/
theorem natAbs_toScaled_le_mul (held : x.Held) {bound : Nat} (turn : bound ≤ 360)
    (size : |x.toRat| ≤ bound) :
    (x.toScaled workingDigits).natAbs ≤ bound * tenTo workingDigits := by
  have turn' : (bound : ℚ) ≤ 360 := by exact_mod_cast turn
  have near := abs_toScaled_sub_le held (by decide) (exponent_within_of_turn held (size.trans turn'))
  have triangle := abs_sub_abs_le_abs_sub (x.toScaled workingDigits : ℚ)
    (x.toRat * 10 ^ workingDigits)
  have power : (0 : ℚ) < 10 ^ workingDigits := by positivity
  rw [abs_mul, abs_of_pos power] at triangle
  have below : |(x.toScaled workingDigits : ℚ)| < bound * 10 ^ workingDigits + 1 := by
    linarith [mul_le_mul_of_nonneg_right size power.le]
  rw [← natCast_tenTo, ← Int.cast_abs, ← Int.natCast_natAbs] at below
  have below' : (x.toScaled workingDigits).natAbs < bound * tenTo workingDigits + 1 := by
    exact_mod_cast below
  exact Nat.le_of_lt_succ below'

theorem natAbs_toScaled_le (held : x.Held) (small : |x.toRat| ≤ 1) :
    (x.toScaled workingDigits).natAbs ≤ tenTo workingDigits := by
  have unit : |x.toRat| ≤ (1 : Nat) := by rwa [Nat.cast_one]
  have bounded := natAbs_toScaled_le_mul held (by norm_num) unit
  rwa [Nat.one_mul] at bounded

theorem one_lt_abs_iff (held : x.Held) : one < x.abs ↔ 1 < |x.toRat| := by
  rw [lt_iff_toRat_lt canonical_one (canonical_abs held.canonical), toRat_one, toRat_abs]

theorem withinUnit_of_le (held : x.Held) (small : |x.toRat| ≤ 1) (otherwise : DomainFault) :
    x.withinUnit otherwise = .ok (x.toScaled workingDigits) :=
  if_neg (mt (one_lt_abs_iff held).1 (not_lt.2 small))

/-- The inverse functions accept every number that is at most one in size. -/
theorem withinUnit_eq_ok (held : x.Held) (small : |x.toRat| ≤ 1) (otherwise : DomainFault) :
    ∃ n, x.withinUnit otherwise = .ok n ∧ ArcsineArgument n := by
  exact ⟨_, withinUnit_of_le held small otherwise,
    arcsineArgument_of_le (natAbs_toScaled_le held small)⟩

theorem asin_eq_ok (held : x.Held) (small : |x.toRat| ≤ 1) (unit : AngleUnit) :
    ∃ n angle, x.withinUnit .arcsineArgument = .ok n ∧ ArcsineArgument n ∧
      asin unit x = .ok angle := by
  obtain ⟨n, accepted, argument⟩ := withinUnit_eq_ok held small .arcsineArgument
  have computed : asin unit x = .ok (ofRadians unit (scaledArcsine n)) := by
    rw [asin, accepted]
    rfl
  exact ⟨n, _, accepted, argument, computed⟩

theorem acos_eq_ok (held : x.Held) (small : |x.toRat| ≤ 1) (unit : AngleUnit) :
    ∃ n angle, x.withinUnit .arccosineArgument = .ok n ∧ ArcsineArgument n ∧
      acos unit x = .ok angle := by
  obtain ⟨n, accepted, argument⟩ := withinUnit_eq_ok held small .arccosineArgument
  have computed : acos unit x = .ok (ofRadians unit
      ((FixedPoint.pi workingDigits).tdiv 2 - scaledArcsine n)) := by
    rw [acos, accepted]
    rfl
  exact ⟨n, _, accepted, argument, computed⟩

end Inverses

section Functions
variable {x : Decimal}

theorem held_ofWorking (n : Int) : (ofWorking n).Held := by
  unfold ofWorking dropNegligible
  split
  · exact ⟨canonical_zero, by decide, by decide⟩
  · exact held_ofParts _ _

/-- Sine and cosine of every angle that is admitted are at most one in size, so the arcsine of the
sine and the arccosine of the cosine never fail, in either unit. -/
theorem sin_cos_within_unit (held : x.Held) (inRange : x.order ≤ 1000) (unit : AngleUnit) :
    (∃ s, sin unit x = .ok s ∧ |s.toRat| ≤ 1 ∧ ∀ other, ∃ n angle,
      s.withinUnit .arcsineArgument = .ok n ∧ ArcsineArgument n ∧ asin other s = .ok angle) ∧
    ∃ c, cos unit x = .ok c ∧ |c.toRat| ≤ 1 ∧ ∀ other, ∃ n angle,
      c.withinUnit .arccosineArgument = .ok n ∧ ArcsineArgument n ∧ acos other c = .ok angle := by
  obtain ⟨angle, found, reduced⟩ := reducedAngle_eq_ok held inRange unit
  have sine := abs_toRat_ofWorking_le_one (Real.abs_sin_le_one _)
    ((abs_sine_sub_le_of_reduced reduced).trans (by norm_num))
  have cosine := abs_toRat_ofWorking_le_one (Real.abs_cos_le_one _)
    ((abs_cosine_sub_le_of_reduced reduced).trans (by norm_num))
  exact ⟨⟨_, sin_eq_ok found, sine, asin_eq_ok (held_ofWorking _) sine⟩,
    ⟨_, cos_eq_ok found, cosine, acos_eq_ok (held_ofWorking _) cosine⟩⟩

/-- The angle is as near to a quarter turn as sixty digits allow, and its sine rounds to one. -/
theorem sin_cos_within_unit_near_quarter :
    ∃ s, sin .radians ⟨157079632679489661923132169163975144209858469968755291048747, -59⟩ = .ok s ∧
      |s.toRat| ≤ 1 ∧ ∀ other, ∃ n angle, s.withinUnit .arcsineArgument = .ok n ∧
        ArcsineArgument n ∧ asin other s = .ok angle := by
  have held : Held ⟨157079632679489661923132169163975144209858469968755291048747, -59⟩ :=
    held_of_written (by decide)
  have inRange : order ⟨157079632679489661923132169163975144209858469968755291048747, -59⟩ ≤ 1000 :=
    (order_of_written 59 (by decide)).trans_le (by decide)
  exact (sin_cos_within_unit held inRange .radians).1

end Functions

end ScientificCalculator.Decimal
