import ScientificCalculator.Proofs.Function.AngleResult
import ScientificCalculator.Proofs.Function.Arcsine

/-!
The ranges of arcsine, arccosine and arctangent. They are defined from minus one to one and nowhere
else, arcsine and arctangent of the opposite number are the opposite ones digit for digit, and no
arcsine lies beyond those of one and minus one, so that no arccosine is negative. In degrees the
values at the ends are whole quarter turns.
-/

namespace ScientificCalculator.Decimal

open FixedPoint

variable {x : Decimal} {unit : AngleUnit} {angle : Int}

section Domain

theorem withinUnit_of_lt (held : x.Held) (large : 1 < |x.toRat|) (otherwise : DomainFault) :
    x.withinUnit otherwise = .error (.domain otherwise) :=
  if_pos ((one_lt_abs_iff held).2 large)

section Inside
variable (held : x.Held) (small : |x.toRat| ≤ 1) (unit : AngleUnit)
include held small

theorem asin_of_le :
    asin unit x = .ok (ofRadians unit (scaledArcsine (x.toScaled workingDigits))) := by
  rw [asin, withinUnit_of_le held small]
  rfl

theorem acos_of_le : acos unit x = .ok (ofRadians unit
    ((FixedPoint.pi workingDigits).tdiv 2 - scaledArcsine (x.toScaled workingDigits))) := by
  rw [acos, withinUnit_of_le held small]
  rfl

theorem atan_of_le : atan unit x =
    .ok (ofRadians unit (arctangent (x.toScaled workingDigits) workingDigits)) := by
  rw [atan, withinUnit_of_le held small]
  rfl

end Inside

/-- A function of numbers from minus one to one returns exactly there. -/
theorem returns_iff (held : x.Held) {f : Except Error Decimal} {fault : DomainFault}
    {result : Int → Decimal} (form : f = (x.withinUnit fault).map result) :
    (∃ r, f = .ok r) ↔ |x.toRat| ≤ 1 := by
  constructor
  · rintro ⟨r, found⟩
    by_contra! large
    rw [form, withinUnit_of_lt held large] at found
    cases found
  · intro small
    rw [form, withinUnit_of_le held small]
    exact ⟨_, rfl⟩

end Domain

section Ends

theorem toScaled_one : one.toScaled workingDigits = tenTo workingDigits := by decide

theorem halfPi_bounds : 0 ≤ (FixedPoint.pi workingDigits).tdiv 2 ∧
    FixedPoint.pi workingDigits - 1 ≤ 2 * (FixedPoint.pi workingDigits).tdiv 2 ∧
    2 * (FixedPoint.pi workingDigits).tdiv 2 ≤ FixedPoint.pi workingDigits := by
  have positive := halfTurn_pos
  rw [Int.tdiv_eq_ediv_of_nonneg positive.le]
  omega

/-- In degrees, a number of quarter turns that is right up to one unit is exact. -/
theorem ofRadians_of_quarters (held : x.Held) {quarters : Int} (nonzero : quarters ≠ 0)
    (value : x.toRat = 90 * quarters)
    (near : |2 * angle - quarters * FixedPoint.pi workingDigits| ≤ 2) :
    ofRadians .degrees angle = x := by
  have power : (0 : ℝ) < 10 ^ workingDigits := by positivity
  obtain ⟨low, -⟩ := halfTurn_bounds (by decide : workingDigits ≤ 10000) (by decide)
  have near' : |2 * (angle : ℝ) - quarters * FixedPoint.pi workingDigits| ≤ 2 := by
    exact_mod_cast near
  have truncated := abs_degrees_sub_lt angle
  rw [ofRadians_eq]
  generalize AngleUnit.degrees.fromRadians angle = degrees at truncated ⊢
  generalize (FixedPoint.pi workingDigits : ℝ) = p at low near' truncated
  have pos : 0 < p := by linarith
  have large : 90 ≤ |x.toRat| := by
    have whole : (1 : ℚ) ≤ |(quarters : ℚ)| := by exact_mod_cast Int.one_le_abs nonzero
    rw [value, abs_mul, abs_of_pos (by norm_num : (0 : ℚ) < 90)]
    linarith
  have place : 1 ≤ x.firstPlace := le_firstPlace_of_le_abs (le_trans (by norm_num) large)
  apply ofWorking_eq_of_near held
  · exact le_trans (by norm_num) large
  · have apart : angle * 180 * 10 ^ workingDigits / p - 10 ^ workingDigits * (x.toRat : ℝ) =
        90 * 10 ^ workingDigits * (2 * angle - quarters * p) / p := by
      rw [value]
      push_cast
      field_simp
      ring
    have exactly :
        |angle * 180 * 10 ^ workingDigits / p - 10 ^ workingDigits * (x.toRat : ℝ)| ≤ 60 := by
      rw [apart, abs_div, abs_mul, abs_of_pos (by positivity : (0 : ℝ) < 90 * 10 ^ workingDigits),
        abs_of_pos pos, div_le_iff₀ pos]
      linarith [mul_le_mul_of_nonneg_left near' (by positivity : (0 : ℝ) ≤ 90 * 10 ^ workingDigits)]
    have digit : (10 : ℝ) ^ (-60 : Int) ≤ 10 ^ (x.firstPlace - 1 - precision) :=
      zpow_le_zpow_right₀ (by norm_num) (by rw [precision]; omega)
    have margin : (61 : ℝ) ≤ 10 ^ workingDigits * 10 ^ (-60 : Int) := by
      rw [tenPow_workingDigits]
      norm_num
    have total := abs_sub_le (degrees : ℝ) (angle * 180 * 10 ^ workingDigits / p)
      (10 ^ workingDigits * (x.toRat : ℝ))
    linarith [mul_le_mul_of_nonneg_left digit power.le]

/-- The arcsines at the ends are a quarter turn, and the arccosine goes from half a turn to none. -/
theorem end_values (unit : AngleUnit) :
    asin unit one = .ok (ofRadians unit ((FixedPoint.pi workingDigits).tdiv 2)) ∧
      asin unit (-one) = .ok (ofRadians unit (-(FixedPoint.pi workingDigits).tdiv 2)) ∧
      acos unit one = .ok zero ∧
      acos unit (-one) = .ok (ofRadians unit (2 * (FixedPoint.pi workingDigits).tdiv 2)) := by
  have held : one.Held := held_of_written (by decide)
  have held' : (-one).Held := held_of_written (by decide)
  have small : |one.toRat| ≤ 1 := by rw [toRat_one, abs_one]
  have small' : |(-one).toRat| ≤ 1 := by rwa [toRat_neg, abs_neg]
  rw [asin_of_le held small, asin_of_le held' small', acos_of_le held small,
    acos_of_le held' small', toScaled_neg, toScaled_one, scaledArcsine_neg, scaledArcsine_unit,
    sub_self, sub_neg_eq_add, ← two_mul, ofRadians_zero]
  exact ⟨rfl, rfl, rfl, rfl⟩

theorem end_values_degrees :
    ofRadians .degrees ((FixedPoint.pi workingDigits).tdiv 2) = ⟨9, 1⟩ ∧
      ofRadians .degrees (-(FixedPoint.pi workingDigits).tdiv 2) = ⟨-9, 1⟩ ∧
      ofRadians .degrees (2 * (FixedPoint.pi workingDigits).tdiv 2) = ⟨18, 1⟩ := by
  obtain ⟨-, low, high⟩ := halfPi_bounds
  have quarter : ofRadians .degrees ((FixedPoint.pi workingDigits).tdiv 2) = ⟨9, 1⟩ := by
    apply ofRadians_of_quarters (held_of_written (by decide)) (by decide : (1 : Int) ≠ 0)
    · norm_num [toRat]
    · exact abs_le.2 (by omega)
  have half : ofRadians .degrees (2 * (FixedPoint.pi workingDigits).tdiv 2) = ⟨18, 1⟩ := by
    apply ofRadians_of_quarters (held_of_written (by decide)) (by decide : (2 : Int) ≠ 0)
    · norm_num [toRat]
    · exact abs_le.2 (by omega)
  refine ⟨quarter, ?_, half⟩
  rw [ofRadians_neg, quarter]
  rfl

end Ends

section Ranges

section Bounds
variable (held : x.Held) (small : |x.toRat| ≤ 1) (unit : AngleUnit)
include held small

theorem asin_between : ∃ s low high, asin unit x = .ok s ∧ asin unit (-x) = .ok (-s) ∧
    asin unit (-one) = .ok low ∧ asin unit one = .ok high ∧ low ≤ s ∧ s ≤ high := by
  have small' : |(-x).toRat| ≤ 1 := by rwa [toRat_neg, abs_neg]
  obtain ⟨natural, -, half⟩ := halfPi_bounds
  obtain ⟨greatest, least, -, -⟩ := end_values unit
  obtain ⟨low, high⟩ := abs_le.1 (abs_scaledArcsine_le (x.toScaled workingDigits))
  refine ⟨_, _, _, asin_of_le held small unit, ?_, least, greatest, ?_, ?_⟩
  · rw [asin_of_le held.neg small', toScaled_neg, scaledArcsine_neg, ofRadians_neg]
  · rw [le_iff_toRat_le (held_ofRadians _ _).canonical (held_ofRadians _ _).canonical]
    exact toRat_ofRadians_mono unit low (abs_le.2 (by omega)) (abs_le.2 (by omega))
  · rw [le_iff_toRat_le (held_ofRadians _ _).canonical (held_ofRadians _ _).canonical]
    exact toRat_ofRadians_mono unit high (abs_le.2 (by omega)) (abs_le.2 (by omega))

theorem acos_between : ∃ c most, acos unit x = .ok c ∧ acos unit one = .ok zero ∧
    acos unit (-one) = .ok most ∧ zero ≤ c ∧ c ≤ most := by
  obtain ⟨natural, -, half⟩ := halfPi_bounds
  obtain ⟨-, -, least, greatest⟩ := end_values unit
  obtain ⟨low, high⟩ := abs_le.1 (abs_scaledArcsine_le (x.toScaled workingDigits))
  refine ⟨_, _, acos_of_le held small unit, least, greatest, ?_, ?_⟩
  · rw [← ofRadians_zero unit,
      le_iff_toRat_le (held_ofRadians _ _).canonical (held_ofRadians _ _).canonical]
    exact toRat_ofRadians_mono unit (by omega) (abs_le.2 (by omega)) (abs_le.2 (by omega))
  · rw [le_iff_toRat_le (held_ofRadians _ _).canonical (held_ofRadians _ _).canonical]
    exact toRat_ofRadians_mono unit (by omega) (abs_le.2 (by omega)) (abs_le.2 (by omega))

theorem atan_opposite : ∃ t, atan unit x = .ok t ∧ atan unit (-x) = .ok (-t) := by
  have small' : |(-x).toRat| ≤ 1 := by rwa [toRat_neg, abs_neg]
  refine ⟨_, atan_of_le held small unit, ?_⟩
  rw [atan_of_le held.neg small', toScaled_neg, arctangent_opposite, ofRadians_neg]

end Bounds

/-- The inverse functions are defined from minus one to one and nowhere else. There arcsine and
arctangent are exactly odd, and arcsine and arccosine stay between their values at the ends, which
are whole quarter turns. -/
theorem inverse_ranges (held : x.Held) (unit : AngleUnit) :
    ((∃ r, asin unit x = .ok r) ↔ |x.toRat| ≤ 1) ∧
    ((∃ r, acos unit x = .ok r) ↔ |x.toRat| ≤ 1) ∧
    ((∃ r, atan unit x = .ok r) ↔ |x.toRat| ≤ 1) ∧
    (|x.toRat| ≤ 1 →
      (∃ s low high, asin unit x = .ok s ∧ asin unit (-x) = .ok (-s) ∧
        asin unit (-one) = .ok low ∧ asin unit one = .ok high ∧ low ≤ s ∧ s ≤ high) ∧
      (∃ c most, acos unit x = .ok c ∧ acos unit one = .ok zero ∧
        acos unit (-one) = .ok most ∧ zero ≤ c ∧ c ≤ most) ∧
      ∃ t, atan unit x = .ok t ∧ atan unit (-x) = .ok (-t)) ∧
    asin .degrees (-one) = .ok ⟨-9, 1⟩ ∧ asin .degrees one = .ok ⟨9, 1⟩ ∧
    acos .degrees one = .ok zero ∧ acos .degrees (-one) = .ok ⟨18, 1⟩ := by
  obtain ⟨greatest, least, none, half⟩ := end_values .degrees
  obtain ⟨quarter, opposite, two⟩ := end_values_degrees
  rw [quarter] at greatest
  rw [opposite] at least
  rw [two] at half
  refine ⟨returns_iff held rfl, returns_iff held rfl, returns_iff held rfl, ?_, least, greatest,
    none, half⟩
  intro small
  exact ⟨asin_between held small unit, acos_between held small unit, atan_opposite held small unit⟩

/-- Next to one the arcsine divides by the smallest cosine, and just above one it is undefined. -/
theorem inverse_ranges_next_to_one :
    (∃ s low high, asin .radians ⟨10 ^ 60 - 1, -60⟩ = .ok s ∧
      asin .radians (-⟨10 ^ 60 - 1, -60⟩) = .ok (-s) ∧
      asin .radians (-one) = .ok low ∧ asin .radians one = .ok high ∧ low ≤ s ∧ s ≤ high) ∧
    ¬ ∃ r, acos .degrees ⟨10 ^ 59 + 1, -59⟩ = .ok r := by
  have below : Held ⟨10 ^ 60 - 1, -60⟩ := held_of_written (by decide)
  have above : Held ⟨10 ^ 59 + 1, -59⟩ := held_of_written (by decide)
  have inside : |toRat ⟨10 ^ 60 - 1, -60⟩| ≤ 1 := by
    rw [toRat, abs_le]
    norm_num
  have outside : ¬ |toRat ⟨10 ^ 59 + 1, -59⟩| ≤ 1 := by
    rw [toRat, abs_le]
    norm_num
  obtain ⟨-, -, -, ranges, -⟩ := inverse_ranges below .radians
  obtain ⟨-, domain, -⟩ := inverse_ranges above .degrees
  exact ⟨(ranges inside).1, mt domain.1 outside⟩

end Ranges

end ScientificCalculator.Decimal
