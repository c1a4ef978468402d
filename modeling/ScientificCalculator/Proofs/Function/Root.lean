import Mathlib.Analysis.SpecialFunctions.Pow.Real
import ScientificCalculator.Function.Root
import ScientificCalculator.Proofs.Decimal.Nearest
import ScientificCalculator.Proofs.Decimal.Order

/-!
Square and cube roots are the decimals nearest to the real roots. The mantissa is widened so far
that the integer root has guard digits. A half in the last place is a whole number of units of the
integer root, so truncating to such a unit does not carry the root over it; and a root that is
exactly a half would need a mantissa with more digits than are kept.
-/

namespace ScientificCalculator

/-- The truncated number is rounded as the number itself, since half of an even unit is whole. -/
theorem roundDivNat_near {n half : Nat} {s : ℝ} (below : n ≤ s) (above : s < n + 1)
    (pos : 0 < half) :
    (2 * roundDivNat n (2 * half) - 1) * half ≤ s ∧
      s < (2 * roundDivNat n (2 * half) + 1) * half := by
  obtain ⟨low, high⟩ := (roundDivNat_eq_iff (show 0 < 2 * half by omega)).1
    (Eq.refl (roundDivNat n (2 * half)))
  generalize roundDivNat n (2 * half) = q at low high
  have low' : 2 * q * half ≤ n + half := by linarith
  have high' : n + half + 1 ≤ 2 * (q + 1) * half := by linarith
  have least : 2 * (q : ℝ) * half ≤ n + half := by exact_mod_cast low'
  have most : (n : ℝ) + half + 1 ≤ 2 * (q + 1) * half := by exact_mod_cast high'
  constructor <;> linarith

/-- No power of an odd number with zeros after it is a smaller number with zeros after it. -/
theorem pow_mul_tenTo_ne {m degree odd zeros places : Nat} (parity : odd % 2 = 1)
    (large : m < odd ^ degree) :
    (odd * tenTo zeros) ^ degree ≠ m * tenTo places := by
  intro same
  rw [mul_pow, tenTo_pow] at same
  rcases Nat.lt_or_ge (zeros * degree) places with many | few
  · obtain ⟨rest, places'⟩ := Nat.exists_eq_add_of_lt many
    rw [places', Nat.add_assoc, Nat.add_comm (zeros * degree), tenTo_add, ← Nat.mul_assoc] at same
    have quotient := Nat.eq_of_mul_eq_mul_right (tenTo_pos _) same
    have even : 2 ∣ odd ^ degree := by
      rw [quotient]
      exact Dvd.dvd.mul_left (Nat.dvd_trans (by decide) (ten_dvd_tenTo_succ _)) m
    have even' := Nat.prime_two.dvd_of_dvd_pow even
    omega
  · obtain ⟨rest, places'⟩ := Nat.exists_eq_add_of_le few
    rw [places', Nat.add_comm places, tenTo_add, ← Nat.mul_assoc] at same
    have quotient := Nat.eq_of_mul_eq_mul_right (tenTo_pos places) same
    have wider := Nat.le_mul_of_pos_right (odd ^ degree) (tenTo_pos rest)
    omega

namespace Decimal
variable {x : Decimal} {degree root : Nat} {t : ℝ}

/-- The mantissa as it is widened for a root of this degree. -/
def radicand (x : Decimal) (degree : Nat) : Nat :=
  x.mantissa.natAbs * tenTo (x.rootPlaces degree (degree * workingDigits))

/-- The exponent of the integer root of the widened mantissa. -/
def rootExponent (x : Decimal) (degree : Nat) : Int :=
  (x.exponent - x.rootPlaces degree (degree * workingDigits)) / degree

/-- The exponent does not pass the ends of its range while the mantissa is widened. -/
structure RootInRange (x : Decimal) (degree : Nat) : Prop where
  least : leastExponent ≤ x.exponent - x.rootPlaces degree (degree * workingDigits)
  greatest : x.exponent ≤ greatestExponent

section Widening

theorem degree_mul_rootExponent (pos : 0 < degree) :
    degree * x.rootExponent degree =
      x.exponent - x.rootPlaces degree (degree * workingDigits) := by
  have natural : 0 ≤ (x.exponent - (degree * workingDigits - digitCount x.mantissa.natAbs : Nat)) %
      (degree : Int) := Int.emod_nonneg _ (by omega)
  apply Int.mul_ediv_cancel'
  rw [rootPlaces]
  simp only [Nat.cast_add, Int.toNat_of_nonneg natural]
  rw [← Int.sub_sub]
  exact Int.dvd_self_sub_emod

/-- The widened mantissa has at least `workingDigits` digits for each degree, and fewer than one
more for each. -/
theorem rootPlaces_bounds (canonical : x.Canonical) (pos : 0 < degree) :
    degree * workingDigits ≤
        digitCount x.mantissa.natAbs + x.rootPlaces degree (degree * workingDigits) ∧
      digitCount x.mantissa.natAbs + x.rootPlaces degree (degree * workingDigits) <
        degree * workingDigits + degree := by
  have few := digitCount_of_canonical canonical
  have wide : workingDigits ≤ degree * workingDigits := Nat.le_mul_of_pos_left _ pos
  have working : workingDigits = precision + 15 := rfl
  have natural := Int.emod_nonneg
    (x.exponent - (degree * workingDigits - digitCount x.mantissa.natAbs : Nat))
    (show (degree : Int) ≠ 0 by omega)
  have less := Int.emod_lt_of_pos
    (x.exponent - (degree * workingDigits - digitCount x.mantissa.natAbs : Nat))
    (show (0 : Int) < degree by omega)
  simp only [rootPlaces]
  omega

theorem radicand_bounds (canonical : x.Canonical) (nonzero : x.mantissa ≠ 0) (pos : 0 < degree) :
    tenTo (degree * workingDigits - 1) ≤ x.radicand degree ∧
      x.radicand degree < tenTo (degree * workingDigits + degree) := by
  obtain ⟨wide, narrow⟩ := rootPlaces_bounds canonical pos
  have digits := digitCount_pos x.mantissa.natAbs
  have least := tenTo_le_of_pos (Int.natAbs_pos.2 nonzero)
  have most := lt_tenTo_digitCount x.mantissa.natAbs
  have zeros := tenTo_pos (x.rootPlaces degree (degree * workingDigits))
  rw [radicand]
  constructor
  · calc tenTo (degree * workingDigits - 1)
        ≤ tenTo (digitCount x.mantissa.natAbs - 1 +
            x.rootPlaces degree (degree * workingDigits)) := tenTo_le_tenTo (by omega)
      _ = tenTo (digitCount x.mantissa.natAbs - 1) *
            tenTo (x.rootPlaces degree (degree * workingDigits)) := tenTo_add _ _
      _ ≤ _ := Nat.mul_le_mul_right _ least
  · calc x.mantissa.natAbs * tenTo (x.rootPlaces degree (degree * workingDigits))
        < tenTo (digitCount x.mantissa.natAbs) *
            tenTo (x.rootPlaces degree (degree * workingDigits)) :=
          Nat.mul_lt_mul_of_pos_right most zeros
      _ = tenTo (digitCount x.mantissa.natAbs +
            x.rootPlaces degree (degree * workingDigits)) := (tenTo_add _ _).symm
      _ ≤ _ := tenTo_le_tenTo narrow.le

/-- The integer root has the working digits, or one more. -/
theorem digitCount_root_bounds (canonical : x.Canonical) (nonzero : x.mantissa ≠ 0)
    (pos : 0 < degree) (low : root ^ degree ≤ x.radicand degree)
    (high : x.radicand degree < (root + 1) ^ degree) :
    workingDigits ≤ digitCount root ∧ digitCount root ≤ workingDigits + 1 := by
  obtain ⟨least, most⟩ := radicand_bounds canonical nonzero pos
  constructor
  · have power : tenTo (workingDigits - 1) ^ degree < (root + 1) ^ degree := by
      refine lt_of_le_of_lt ?_ (lt_of_le_of_lt least high)
      rw [tenTo_pow]
      apply tenTo_le_tenTo
      rw [Nat.sub_mul, Nat.one_mul, Nat.mul_comm]
      omega
    have reached := lt_of_pow_lt_pow_left₀ degree (Nat.zero_le _) power
    have digits := lt_of_tenTo_lt (lt_of_le_of_lt (Nat.le_of_lt_succ reached)
      (lt_tenTo_digitCount root))
    omega
  · have power : root ^ degree < tenTo (workingDigits + 1) ^ degree := by
      refine lt_of_le_of_lt low (most.trans_le ?_)
      rw [tenTo_pow]
      apply tenTo_le_tenTo
      rw [Nat.add_mul, Nat.one_mul, Nat.mul_comm]
    exact digitCount_le (Nat.succ_pos _) (lt_of_pow_lt_pow_left₀ degree (Nat.zero_le _) power)

/-- In units of the integer root, the real root is the root of the widened mantissa. -/
theorem pow_div_rootExponent (positive : x.IsPositive) (pos : 0 < degree)
    (power : t ^ degree = (x.toRat : ℝ)) :
    (t / 10 ^ x.rootExponent degree) ^ degree = x.radicand degree := by
  have mantissa : ((x.mantissa.natAbs : Nat) : ℝ) = x.mantissa := by
    rw [Nat.cast_natAbs, abs_of_pos positive]
  have places : x.exponent = (x.rootPlaces degree (degree * workingDigits) : Int) +
      x.rootExponent degree * degree := by
    rw [mul_comm (x.rootExponent degree), degree_mul_rootExponent pos]
    ring
  have unit : (0 : ℝ) < 10 ^ (x.rootExponent degree * degree) := zpow_pos (by norm_num) _
  rw [div_pow, power, ← zpow_natCast, ← zpow_mul, div_eq_iff unit.ne', radicand, toRat]
  push_cast
  rw [mantissa, realCast_tenTo, ← zpow_natCast, mul_assoc, ← zpow_add₀ (by norm_num), ← places]

end Widening

/-- The root of the widened mantissa is not a half in the last place that is kept. -/
theorem root_ne_half (canonical : x.Canonical) (several : 2 ≤ degree) {q zeros : Nat}
    (large : tenTo 59 ≤ q) :
    ((2 * q - 1) * (5 * tenTo zeros)) ^ degree ≠ x.radicand degree := by
  have pos := tenTo_pos 59
  have odd : (2 * q - 1) * (5 * tenTo zeros) = 5 * (2 * q - 1) * tenTo zeros := by ring
  rw [odd, radicand]
  apply pow_mul_tenTo_ne
  · omega
  · calc x.mantissa.natAbs < tenTo precision :=
          (lt_tenTo_digitCount _).trans_le (tenTo_le_tenTo (digitCount_of_canonical canonical))
      _ = tenTo 30 ^ 2 := (tenTo_pow 30 2).symm
      _ ≤ (5 * (2 * q - 1)) ^ 2 := Nat.pow_le_pow_left ?_ 2
      _ ≤ (5 * (2 * q - 1)) ^ degree := Nat.pow_le_pow_right (by omega) several
    have least : tenTo 30 ≤ tenTo 59 := tenTo_le_tenTo (by decide)
    omega

section Nearest
variable (canonical : x.Canonical) (positive : x.IsPositive) (several : 2 ≤ degree)
  (low : root ^ degree ≤ x.radicand degree) (high : x.radicand degree < (root + 1) ^ degree)
include canonical positive several low high

theorem root_pos : 0 < root := by
  obtain ⟨digits, -⟩ := digitCount_root_bounds canonical positive.ne' (by omega) low high
  rcases Nat.eq_zero_or_pos root with rfl | pos
  · rw [digitCount_of_lt (by decide)] at digits
    exact absurd digits (by decide)
  · exact pos

/-- The rounded integer root is less than half a unit of the last place away from the real one. -/
theorem abs_roundedMagnitude_sub_lt {s : ℝ} (below : root ≤ s) (above : s < root + 1)
    (power : s ^ degree = x.radicand degree) :
    |(roundedMagnitude root : ℝ) * tenTo (digitCount root - precision) - s| <
      tenTo (digitCount root - precision) / 2 := by
  have pos := root_pos canonical positive several low high
  obtain ⟨digits, -⟩ := digitCount_root_bounds canonical positive.ne' (by omega) low high
  have working : workingDigits = precision + 15 := rfl
  obtain ⟨zeros, guard⟩ : ∃ zeros, digitCount root - precision = zeros + 1 :=
    ⟨digitCount root - precision - 1, by omega⟩
  have even : tenTo (zeros + 1) = 2 * (5 * tenTo zeros) := by
    rw [tenTo_succ]
    ring
  have large : tenTo 59 ≤ roundedMagnitude root :=
    (keptFigures_bounds pos (by decide) (show precision < digitCount root by omega)).1
  have rounded : roundedMagnitude root = roundDivNat root (2 * (5 * tenTo zeros)) := by
    rw [roundedMagnitude, guard, even]
  have unit := tenTo_pos zeros
  obtain ⟨least, most⟩ := roundDivNat_near below above (show 0 < 5 * tenTo zeros by omega)
  rw [← rounded] at least most
  have notHalf : (2 * (roundedMagnitude root : ℝ) - 1) * (5 * tenTo zeros : Nat) ≠ s := by
    rintro rfl
    apply @root_ne_half x degree canonical several (roundedMagnitude root) zeros large
    have whole : ((2 * roundedMagnitude root - 1 : Nat) : ℝ) = 2 * roundedMagnitude root - 1 := by
      have first := tenTo_pos 59
      rw [Nat.cast_sub (by omega)]
      push_cast
      rfl
    rw [← whole] at power
    exact_mod_cast power
  have least' := lt_of_le_of_ne least notHalf
  rw [guard, even, abs_lt]
  push_cast at *
  constructor <;> linarith

/-- The integer root and its exponent make a decimal without reaching an end of the exponents. -/
theorem toRat_root (inRange : x.RootInRange degree) :
    (ofParts root (x.rootExponent degree)).toRat =
      roundedMagnitude root *
        10 ^ (x.rootExponent degree + (digitCount root - precision : Nat)) := by
  have pos := root_pos canonical positive several low high
  obtain ⟨-, digits⟩ := digitCount_root_bounds canonical positive.ne' (by omega) low high
  have working : workingDigits = precision + 15 := rfl
  have least := inRange.least
  have greatest := inRange.greatest
  rw [← degree_mul_rootExponent (by omega)] at least
  have several' : (2 : Int) ≤ degree := by exact_mod_cast several
  have ends : leastExponent ≤ 0 ∧ 0 ≤ greatestExponent - 2 * (workingDigits + 1 + precision) := by
    decide
  have first : leastExponent ≤ x.rootExponent degree := by
    rcases le_total 0 (x.rootExponent degree) with natural | negative
    · omega
    · have smaller := mul_le_mul_of_nonpos_right (show (1 : Int) ≤ degree by omega) negative
      omega
  have last : x.rootExponent degree + digitCount (root : Int).natAbs + precision ≤
      greatestExponent := by
    rw [Int.natAbs_natCast]
    rcases le_total 0 (x.rootExponent degree) with natural | negative
    · have double := mul_le_mul_of_nonneg_right several' natural
      have widened := degree_mul_rootExponent (x := x) (show 0 < degree by omega)
      omega
    · omega
  have value : (0 : ℚ) < root * 10 ^ x.rootExponent degree :=
    mul_pos (by exact_mod_cast pos) (ten_zpow_pos _)
  rw [toRat_ofParts first last, Int.cast_natCast, roundSignificant_of_pos value,
    roundMagnitude_parts pos]

/-- The integer root of the widened mantissa, rounded, is the decimal nearest to the real root. -/
theorem nearest_root (inRange : x.RootInRange degree) (natural : 0 ≤ t)
    (power : t ^ degree = (x.toRat : ℝ)) : (ofParts root (x.rootExponent degree)).Nearest t := by
  have pos := root_pos canonical positive several low high
  obtain ⟨digits, -⟩ := digitCount_root_bounds canonical positive.ne' (by omega) low high
  have value := toRat_root canonical positive several low high inRange
  have unit : (0 : ℝ) < 10 ^ x.rootExponent degree := zpow_pos (by norm_num) _
  have scaled := pow_div_rootExponent positive (by omega) power
  have natural' : 0 ≤ t / 10 ^ x.rootExponent degree := div_nonneg natural unit.le
  have below : (root : ℝ) ≤ t / 10 ^ x.rootExponent degree := by
    apply le_of_pow_le_pow_left₀ (n := degree) (by omega) natural'
    rw [scaled]
    exact_mod_cast low
  have above : t / 10 ^ x.rootExponent degree < root + 1 := by
    apply lt_of_pow_lt_pow_left₀ degree (by positivity)
    rw [scaled]
    exact_mod_cast high
  have near := abs_roundedMagnitude_sub_lt canonical positive several low high below above scaled
  have working : workingDigits = precision + 15 := rfl
  have place : (digitCount root : Int) - 1 + x.rootExponent degree + 1 - precision =
      (digitCount root - precision : Nat) + x.rootExponent degree := by
    omega
  have last : (10 : ℝ) ^ ((digitCount root : Int) - 1 + x.rootExponent degree + 1 - precision) =
      tenTo (digitCount root - precision) * 10 ^ x.rootExponent degree := by
    rw [place, zpow_add₀ (by norm_num), zpow_natCast, realCast_tenTo]
  apply nearest_of_multiple (k := (digitCount root : Int) - 1 + x.rootExponent degree)
    (n := roundedMagnitude root) (canonical_ofParts _ _)
  · have first : (digitCount root : Int) - 1 = (digitCount root - 1 : Nat) := by omega
    have least : (tenTo (digitCount root - 1) : ℝ) ≤ root := by exact_mod_cast tenTo_le_of_pos pos
    rw [first, zpow_add₀ (by norm_num), zpow_natCast, ← realCast_tenTo, ← le_div_iff₀ unit]
    exact least.trans below
  · rw [value, place, add_comm (x.rootExponent degree), Int.cast_natCast]
  · have factored : (((ofParts root (x.rootExponent degree)).toRat : ℚ) : ℝ) - t =
        (roundedMagnitude root * tenTo (digitCount root - precision) -
          t / 10 ^ x.rootExponent degree) * 10 ^ x.rootExponent degree := by
      rw [value, add_comm (x.rootExponent degree), sub_mul, div_mul_cancel₀ _ unit.ne']
      push_cast
      rw [zpow_add₀ (by norm_num), zpow_natCast, realCast_tenTo, mul_assoc]
    rw [last, factored, abs_mul, abs_of_pos unit, mul_div_right_comm]
    exact mul_lt_mul_of_pos_right near unit

end Nearest

theorem nearest_squareRoot (canonical : x.Canonical) (positive : x.IsPositive)
    (inRange : x.RootInRange 2) (natural : 0 ≤ t) (power : t ^ 2 = (x.toRat : ℝ)) :
    ∃ r, x.squareRoot = .ok r ∧ r.Nearest t := by
  have taken : x.squareRoot = .ok (ofParts (Nat.sqrt (x.radicand 2)) (x.rootExponent 2)) := by
    rw [squareRoot, if_neg (show ¬ x.IsNegative from not_lt.2 (le_of_lt positive)),
      if_neg (show ¬ x.IsZero from ne_of_gt positive)]
    rfl
  exact ⟨_, taken, nearest_root canonical positive le_rfl (Nat.sqrt_le' _) (Nat.lt_succ_sqrt' _)
    inRange natural power⟩

section CubeRoot

theorem cubeRoot_of_isPositive (positive : x.IsPositive) :
    x.cubeRoot = ofParts (FixedPoint.cubeRoot (x.radicand 3)) (x.rootExponent 3) := by
  rw [cubeRoot, if_neg (show ¬ x.IsZero from ne_of_gt positive)]
  exact if_neg (show ¬ x.IsNegative from not_lt.2 (le_of_lt positive))

theorem cubeRoot_of_isNegative (negative : x.IsNegative) :
    x.cubeRoot = -ofParts (FixedPoint.cubeRoot (x.radicand 3)) (x.rootExponent 3) := by
  rw [cubeRoot, if_neg (show ¬ x.IsZero from ne_of_lt negative)]
  exact if_pos negative

/-- The sign takes no part in a cube root. -/
theorem cubeRoot_neg (x : Decimal) : (-x).cubeRoot = -x.cubeRoot := by
  have mantissa : (-x).mantissa = -x.mantissa := rfl
  have places : (-x).rootPlaces 3 (3 * workingDigits) = x.rootPlaces 3 (3 * workingDigits) := by
    rw [rootPlaces, rootPlaces, mantissa, Int.natAbs_neg]
    rfl
  have radicand' : (-x).radicand 3 = x.radicand 3 := by
    rw [radicand, radicand, places, mantissa, Int.natAbs_neg]
  have exponent' : (-x).rootExponent 3 = x.rootExponent 3 := by
    rw [rootExponent, rootExponent, places]
    rfl
  rcases lt_trichotomy x.mantissa 0 with negative | zero | positive
  · rw [cubeRoot_of_isNegative negative, cubeRoot_of_isPositive (x := -x) (neg_pos.2 negative),
      radicand', exponent']
    exact Decimal.ext (neg_neg _).symm rfl
  · rw [cubeRoot, cubeRoot, if_pos (show x.IsZero from zero),
      if_pos (show (-x).IsZero from neg_eq_zero.2 zero)]
    rfl
  · rw [cubeRoot_of_isPositive positive,
      cubeRoot_of_isNegative (x := -x) (neg_neg_of_pos positive), radicand', exponent']

theorem nearest_cubeRoot (canonical : x.Canonical) (positive : x.IsPositive)
    (inRange : x.RootInRange 3) (natural : 0 ≤ t) (power : t ^ 3 = (x.toRat : ℝ)) :
    x.cubeRoot.Nearest t := by
  have cube (n : Nat) : FixedPoint.cube n = n ^ 3 := by
    rw [FixedPoint.cube]
    ring
  obtain ⟨low, high⟩ := FixedPoint.cubeRoot_bounds (x.radicand 3)
  rw [cube] at low high
  rw [cubeRoot_of_isPositive positive]
  exact nearest_root canonical positive (by decide) low high inRange natural power

end CubeRoot

/-- The square root of a positive number is the decimal nearest to the real root, and so is the cube
root; a root that is a decimal itself is found exactly. The cube root of the opposite number is the
opposite root. -/
theorem roots_nearest (canonical : x.Canonical) (positive : x.IsPositive) :
    (x.RootInRange 2 → ∃ r, x.squareRoot = .ok r ∧ r.Nearest √(x.toRat : ℝ) ∧
      ∀ y : Decimal, y.Canonical → 0 ≤ y.toRat → y.toRat ^ 2 = x.toRat → r = y) ∧
    (x.RootInRange 3 → x.cubeRoot.Nearest ((x.toRat : ℝ) ^ (1 / 3 : ℝ)) ∧
      ∀ y : Decimal, y.Canonical → y.toRat ^ 3 = x.toRat → x.cubeRoot = y) ∧
    (-x).cubeRoot = -x.cubeRoot := by
  have pos : 0 < x.toRat := toRat_pos_iff.2 positive
  have pos' : (0 : ℝ) < x.toRat := by exact_mod_cast pos
  refine ⟨fun inRange => ?_, fun inRange => ⟨?_, fun y canonical' power => ?_⟩, cubeRoot_neg x⟩
  · obtain ⟨r, taken, nearest⟩ := nearest_squareRoot canonical positive inRange
      (Real.sqrt_nonneg _) (Real.sq_sqrt pos'.le)
    refine ⟨r, taken, nearest, fun y canonical' natural power => ?_⟩
    have root : (y.toRat : ℝ) = √(x.toRat : ℝ) := by
      rw [← power, Rat.cast_pow, Real.sqrt_sq (by exact_mod_cast natural)]
    exact nearest.eq_of_toRat_eq canonical' root
  · apply nearest_cubeRoot canonical positive inRange (Real.rpow_nonneg pos'.le _)
    rw [one_div]
    exact Real.rpow_inv_natCast_pow pos'.le (by decide)
  · have natural : 0 ≤ y.toRat := by
      have odd : Odd 3 := by decide
      rw [← odd.pow_nonneg_iff, power]
      exact pos.le
    have nearest := nearest_cubeRoot canonical positive inRange
      (show 0 ≤ (y.toRat : ℝ) by exact_mod_cast natural) (by exact_mod_cast power)
    exact nearest.eq_of_toRat_eq canonical' rfl

/-- The roots of two ten-millionths, whose exponent is odd and no multiple of three, and of a cube
with sixty digits. -/
theorem roots_nearest_small :
    (∃ r, squareRoot ⟨2, -7⟩ = .ok r ∧ r.Nearest √((⟨2, -7⟩ : Decimal).toRat : ℝ)) ∧
      (cubeRoot ⟨2, -7⟩).Nearest (((⟨2, -7⟩ : Decimal).toRat : ℝ) ^ (1 / 3 : ℝ)) ∧
      cubeRoot (-⟨2, -7⟩) = -cubeRoot ⟨2, -7⟩ ∧
      cubeRoot ⟨99999999999999999999 ^ 3, -6⟩ = ⟨99999999999999999999, -2⟩ := by
  obtain ⟨square, cube, opposite⟩ := roots_nearest (x := ⟨2, -7⟩) (by decide +kernel) (by decide)
  obtain ⟨-, long, -⟩ := roots_nearest (x := ⟨99999999999999999999 ^ 3, -6⟩) (by decide +kernel)
    (by decide)
  obtain ⟨r, taken, nearest, -⟩ := square ⟨by decide +kernel, by decide⟩
  obtain ⟨nearest', -⟩ := cube ⟨by decide +kernel, by decide⟩
  obtain ⟨-, found⟩ := long ⟨by decide +kernel, by decide⟩
  exact ⟨⟨r, taken, nearest⟩, nearest', opposite,
    found ⟨99999999999999999999, -2⟩ (by decide +kernel) (by norm_num [toRat])⟩

end Decimal

end ScientificCalculator
