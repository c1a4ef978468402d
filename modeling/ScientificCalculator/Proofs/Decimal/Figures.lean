import Mathlib.Algebra.Order.Round
import ScientificCalculator.Proofs.Decimal.Arithmetic

/-!
Numbers rounded to a chosen count of significant figures, a half going away from zero. More figures
never leave the number further away, and a rounded number that needs only some of the figures is
already the number rounded to those.
-/

namespace ScientificCalculator

/-- The place of the last of `count` significant figures. -/
def figurePlace (count : Nat) (q : ℚ) : Int := Int.log 10 |q| + 1 - count

/-- The number with `count` significant figures that is nearest to `q`, a half going away from
zero. -/
def roundTo (count : Nat) (q : ℚ) : ℚ :=
  SignType.sign q * (⌊|q| / 10 ^ figurePlace count q + 1 / 2⌋ * 10 ^ figurePlace count q)

section Rational
variable {q : ℚ} {k : Int} {coarse fine : Nat}

theorem roundTo_zero (count : Nat) : roundTo count 0 = 0 := by
  rw [roundTo, sign_zero, SignType.coe_zero, zero_mul]

theorem roundTo_neg (count : Nat) (q : ℚ) : roundTo count (-q) = -roundTo count q := by
  rw [roundTo, roundTo, figurePlace, figurePlace, abs_neg, Left.sign_neg, SignType.coe_neg, neg_mul]

theorem log_eq (low : 10 ^ k ≤ q) (high : q < 10 ^ (k + 1)) : Int.log 10 q = k := by
  have pos : 0 < q := lt_of_lt_of_le (ten_zpow_pos k) low
  have least : k ≤ Int.log 10 q :=
    (Int.zpow_le_iff_le_log (by decide) pos).1 (by exact_mod_cast low)
  have greatest : Int.log 10 q < k + 1 :=
    (Int.lt_zpow_iff_log_lt (by decide) pos).1 (by exact_mod_cast high)
  omega

theorem roundTo_eq_round (count : Nat) (low : 10 ^ k ≤ q) (high : q < 10 ^ (k + 1)) :
    roundTo count q = round (q / 10 ^ (k + 1 - count)) * 10 ^ (k + 1 - count) := by
  have pos : 0 < q := lt_of_lt_of_le (ten_zpow_pos k) low
  rw [roundTo, figurePlace, abs_of_pos pos, log_eq low high, sign_pos pos, SignType.coe_one, one_mul,
    round_eq]

/-- No multiple of the last place is nearer. -/
theorem abs_roundTo_sub_le (count : Nat) (low : 10 ^ k ≤ q) (high : q < 10 ^ (k + 1)) (n : Int) :
    |roundTo count q - q| ≤ |n * 10 ^ (k + 1 - count) - q| := by
  rw [roundTo_eq_round count low high]
  generalize unit : (10 : ℚ) ^ (k + 1 - count) = u
  have pos : 0 < u := unit ▸ ten_zpow_pos _
  have scaled (m : Int) : |m * u - q| = |q / u - m| * u := by
    have apart : m * u - q = -((q / u - m) * u) := by
      field_simp
      ring
    rw [apart, abs_neg, abs_mul, abs_of_pos pos]
  rw [scaled, scaled]
  exact mul_le_mul_of_nonneg_right (round_le _ n) pos.le

theorem abs_roundTo_sub_le_half (count : Nat) (low : 10 ^ k ≤ q) (high : q < 10 ^ (k + 1)) :
    |roundTo count q - q| ≤ 10 ^ (k + 1 - count) / 2 := by
  rw [roundTo_eq_round count low high]
  generalize unit : (10 : ℚ) ^ (k + 1 - count) = u
  have pos : 0 < u := unit ▸ ten_zpow_pos _
  have apart : round (q / u) * u - q = -((q / u - round (q / u)) * u) := by
    field_simp
    ring
  rw [apart, abs_neg, abs_mul, abs_of_pos pos]
  linarith [mul_le_mul_of_nonneg_right (abs_sub_round (q / u)) pos.le]

/-- A multiple of the last place that is less than half a unit away is the rounded number. -/
theorem roundTo_eq_of_near {count : Nat} (low : 10 ^ k ≤ q) (high : q < 10 ^ (k + 1)) {n : Int}
    (near : |n * 10 ^ (k + 1 - count) - q| < 10 ^ (k + 1 - count) / 2) :
    roundTo count q = n * 10 ^ (k + 1 - count) := by
  rw [roundTo_eq_round count low high]
  generalize unit : (10 : ℚ) ^ (k + 1 - count) = u at *
  have pos : 0 < u := unit ▸ ten_zpow_pos _
  obtain ⟨above, below⟩ := abs_lt.1 near
  have nearest : round (q / u) = n := by
    rw [round_eq_iff, Set.mem_Ico, le_div_iff₀ pos, div_lt_iff₀ pos]
    constructor <;> linarith
  rw [nearest]

theorem roundTo_of_multiple {count : Nat} (low : 10 ^ k ≤ q) (high : q < 10 ^ (k + 1)) {n : Int}
    (multiple : q = n * 10 ^ (k + 1 - (count : Int))) : roundTo count q = q := by
  have near : |n * 10 ^ (k + 1 - (count : Int)) - q| < 10 ^ (k + 1 - (count : Int)) / 2 := by
    rw [← multiple, sub_self, abs_zero]
    exact half_pos (ten_zpow_pos _)
  rw [roundTo_eq_of_near low high near, ← multiple]

theorem figureUnit_eq_mul (le : coarse ≤ fine) (k : Int) :
    (10 : ℚ) ^ (k + 1 - coarse) = ((10 ^ (fine - coarse) : Int) : ℚ) * 10 ^ (k + 1 - fine) := by
  rw [ten_zpow_eq_mul (fine - coarse) (by omega : k + 1 - (coarse : Int) =
    (fine - coarse : Nat) + (k + 1 - fine))]
  push_cast
  rfl

/-- With more figures the rounded number is at least as near. -/
theorem abs_roundTo_sub_anti (le : coarse ≤ fine) (low : 10 ^ k ≤ q) (high : q < 10 ^ (k + 1)) :
    |roundTo fine q - q| ≤ |roundTo coarse q - q| := by
  have finer := abs_roundTo_sub_le fine low high
    (round (q / 10 ^ (k + 1 - (coarse : Int))) * 10 ^ (fine - coarse))
  rw [Int.cast_mul, mul_assoc, ← figureUnit_eq_mul le, ← roundTo_eq_round coarse low high] at finer
  exact finer

/-- A rounded number that needs only `coarse` figures is also the number rounded to them. -/
theorem roundTo_coarse (le : coarse ≤ fine) (low : 10 ^ k ≤ q) (high : q < 10 ^ (k + 1)) {n : Int}
    (short : roundTo fine q = n * 10 ^ (k + 1 - coarse)) : roundTo coarse q = roundTo fine q := by
  rcases Nat.eq_or_lt_of_le le with rfl | less
  · rfl
  · have half := abs_roundTo_sub_le_half fine low high
    have wider : (10 : ℚ) ^ (k + 1 - fine) < 10 ^ (k + 1 - coarse) :=
      zpow_lt_zpow_right₀ (by norm_num) (by omega)
    rw [short] at half ⊢
    exact roundTo_eq_of_near low high (by linarith)

end Rational

section Digits

theorem round_natCast_div {n d : Nat} (pos : 0 < d) : round ((n : ℚ) / d) = roundDivNat n d := by
  obtain ⟨below, above⟩ := (roundDivNat_eq_iff pos).1 (Eq.refl (roundDivNat n d))
  have below' : 2 * (roundDivNat n d : ℚ) * d ≤ 2 * n + d := by exact_mod_cast below
  have above' : 2 * (n : ℚ) + d < 2 * (roundDivNat n d + 1) * d := by exact_mod_cast above
  have pos' : (0 : ℚ) < d := by exact_mod_cast pos
  rw [round_eq_iff, Set.mem_Ico, le_div_iff₀ pos', div_lt_iff₀ pos']
  push_cast
  constructor <;> linarith

/-- The first `count` figures of a natural number, rounded; all of it if it has no more. -/
def keptFigures (n count : Nat) : Nat := roundDivNat n (tenTo (digitCount n - count))

theorem keptFigures_of_le {n count : Nat} (short : digitCount n ≤ count) :
    keptFigures n count = n := by
  rw [keptFigures, Nat.sub_eq_zero_of_le short, tenTo_zero, roundDivNat_one]

theorem keptFigures_bounds {n count : Nat} (pos : 0 < n) (few : 0 < count)
    (long : count < digitCount n) :
    tenTo (count - 1) ≤ keptFigures n count ∧ keptFigures n count ≤ tenTo count := by
  have least := tenTo_le_of_pos pos
  have below := lt_tenTo_digitCount n
  rw [show digitCount n - 1 = count - 1 + (digitCount n - count) by omega, tenTo_add] at least
  rw [show digitCount n = count + (digitCount n - count) by omega, tenTo_add] at below
  have scale := tenTo_pos (digitCount n - count)
  unfold keptFigures roundDivNat
  generalize tenTo (digitCount n - count) = unit at least below scale
  constructor
  · rw [Nat.le_div_iff_mul_le (by omega), Nat.mul_left_comm]
    omega
  · apply Nat.le_of_lt_succ
    rw [Nat.div_lt_iff_lt_mul (by omega), Nat.succ_eq_add_one, Nat.add_mul, Nat.one_mul,
      Nat.mul_left_comm (tenTo count) 2 unit]
    omega

theorem keptFigures_pos {n count : Nat} (pos : 0 < n) (few : 0 < count) :
    0 < keptFigures n count := by
  rcases Nat.lt_or_ge count (digitCount n) with long | short
  · exact Nat.lt_of_lt_of_le (tenTo_pos _) (keptFigures_bounds pos few long).1
  · rwa [keptFigures_of_le short]

theorem digitCount_tenTo (n : Nat) : digitCount (tenTo n) = n + 1 :=
  (digitCount_eq_iff (tenTo_pos n)).2 ⟨Nat.le_refl _, by
    rw [tenTo_succ]
    have pos := tenTo_pos n
    omega⟩

/-- Rounding keeps the figures asked for, but for a carry through all of them. -/
theorem digitCount_keptFigures {n count : Nat} (pos : 0 < n) (few : 0 < count)
    (long : count < digitCount n) :
    digitCount (keptFigures n count) = count ∨ keptFigures n count = tenTo count := by
  obtain ⟨least, most⟩ := keptFigures_bounds pos few long
  rcases Nat.lt_or_eq_of_le most with below | carry
  · left
    have same := (digitCount_eq_iff (k := count - 1) (keptFigures_pos pos few)).2
    rw [Nat.sub_add_cancel few] at same
    exact same ⟨least, below⟩
  · exact .inr carry

/-- A number of several units has fewer digits than units. -/
theorem digitCount_lt {n : Nat} (several : 2 ≤ n) : digitCount n < n := by
  obtain ⟨k, rfl⟩ : ∃ k, n = k + 2 := ⟨n - 2, by omega⟩
  have power : k < tenTo k := Nat.lt_pow_self (by decide)
  have count := digitCount_le (n := k + 2) (k := k + 1) (Nat.succ_pos k) (by
    rw [tenTo_succ]
    omega)
  omega

theorem decimalDigits_mul_tenTo {n : Nat} (pos : 0 < n) (zeros : Nat) :
    decimalDigits (n * tenTo zeros) = decimalDigits n ++ List.replicate zeros '0' := by
  induction zeros with
  | zero => rw [tenTo_zero, Nat.mul_one, List.replicate_zero, List.append_nil]
  | succ zeros ih =>
    have next := Nat.toDigits_append_toDigits (b := 10) (d := 0) (by decide)
      (Nat.mul_pos pos (tenTo_pos zeros)) (by decide)
    have last : Nat.toDigits 10 0 = ['0'] := by decide
    rw [Nat.add_zero, last] at next
    rw [tenTo_succ, ← Nat.mul_assoc, Nat.mul_comm _ 10, decimalDigits, ← next]
    show decimalDigits (n * tenTo zeros) ++ ['0'] = _
    rw [ih, List.append_assoc, ← List.replicate_succ']

theorem stripped_mul (n : Nat) : stripped n * tenTo (trailingZeros n) = n :=
  Nat.div_mul_cancel (tenTo_trailingZeros_dvd n)

theorem stripped_pos {n : Nat} (pos : 0 < n) : 0 < stripped n :=
  Nat.pos_of_mul_pos_right (stripped_mul n ▸ pos)

/-- The text of a number ends in the zeros that its mantissa is freed from. -/
theorem decimalDigits_stripped {n : Nat} (pos : 0 < n) :
    decimalDigits n = decimalDigits (stripped n) ++ List.replicate (trailingZeros n) '0' := by
  rw [← decimalDigits_mul_tenTo (stripped_pos pos), stripped_mul]

theorem digitCount_stripped {n : Nat} (pos : 0 < n) :
    digitCount (stripped n) + trailingZeros n = digitCount n := by
  have lengths := congrArg List.length (decimalDigits_stripped pos)
  rw [List.length_append, List.length_replicate, length_decimalDigits, length_decimalDigits] at lengths
  exact lengths.symm

theorem trailingZeros_tenTo (n : Nat) : trailingZeros (tenTo n) = n := by
  induction n with
  | zero => rw [tenTo_zero, trailingZeros, if_neg (by decide), if_neg (by decide)]
  | succ n ih =>
    have pos := tenTo_pos n
    rw [tenTo_succ, trailingZeros, if_neg (by omega), if_pos (by omega),
      Nat.mul_div_cancel _ (by decide), ih]

theorem stripped_tenTo (n : Nat) : stripped (tenTo n) = 1 := by
  rw [stripped, trailingZeros_tenTo, Nat.div_self (tenTo_pos n)]

end Digits

namespace Decimal
variable {x : Decimal} {count coarse fine : Nat}

/-- The figures of a mantissa. -/
def figures (x : Decimal) : Nat := digitCount x.mantissa.natAbs

/-- The magnitude with at most `count` figures, in canonical form. -/
def rounded (x : Decimal) (count : Nat) : Decimal :=
  let kept := keptFigures x.mantissa.natAbs count
  ⟨stripped kept, x.exponent + (x.figures - count : Nat) + trailingZeros kept⟩

theorem firstPlace_eq (x : Decimal) : x.firstPlace = x.figures - 1 + x.exponent := rfl

/-- The value of the rounded decimal is the rounded value. -/
theorem toRat_rounded (nonzero : x.mantissa ≠ 0) (count : Nat) :
    (x.rounded count).toRat = roundTo count |x.toRat| := by
  have low := ten_zpow_firstPlace_le nonzero
  have high := lt_ten_zpow_firstPlace x
  have whole : ((stripped (keptFigures x.mantissa.natAbs count) : Nat) : ℚ) *
      tenTo (trailingZeros (keptFigures x.mantissa.natAbs count)) =
        keptFigures x.mantissa.natAbs count := by
    exact_mod_cast stripped_mul _
  have value : (x.rounded count).toRat =
      keptFigures x.mantissa.natAbs count * 10 ^ (x.exponent + (x.figures - count : Nat)) := by
    rw [toRat, rounded, Int.cast_natCast, zpow_add₀ (by norm_num) _ (Nat.cast _), zpow_natCast,
      ← natCast_tenTo, ← whole]
    ring
  rcases Nat.lt_or_ge count x.figures with long | short
  · have unit : x.firstPlace + 1 - count = x.exponent + (x.figures - count : Nat) := by
      rw [firstPlace_eq]
      omega
    have scaled : |x.toRat| / 10 ^ (x.exponent + (x.figures - count : Nat)) =
        (x.mantissa.natAbs : ℚ) / tenTo (x.figures - count) := by
      rw [abs_toRat, zpow_add₀ (by norm_num), zpow_natCast, natCast_tenTo]
      field_simp
    rw [roundTo_eq_round count low high, unit, scaled, round_natCast_div (tenTo_pos _), value,
      Int.cast_natCast]
    rfl
  · have unrounded : (x.rounded count).toRat = |x.toRat| := by
      rw [value, keptFigures_of_le short, abs_toRat, Nat.sub_eq_zero_of_le short, Nat.cast_zero,
        add_zero]
    have multiple : |x.toRat| = ((x.mantissa.natAbs * tenTo (count - x.figures) : Nat) : Int) *
        10 ^ (x.firstPlace + 1 - count) := by
      have places : x.exponent = (count - x.figures : Nat) + (x.firstPlace + 1 - count) := by
        rw [firstPlace_eq]
        omega
      rw [abs_toRat, Int.cast_natCast, Nat.cast_mul, natCast_tenTo, mul_assoc,
        ← ten_zpow_eq_mul _ places]
    rw [roundTo_of_multiple low high multiple, unrounded]

section Rounded
variable (nonzero : x.mantissa ≠ 0) (few : 0 < count)
include nonzero few

theorem kept_pos : 0 < keptFigures x.mantissa.natAbs count :=
  keptFigures_pos (Int.natAbs_pos.2 nonzero) few

theorem mantissa_rounded_pos : 0 < (x.rounded count).mantissa :=
  Int.natCast_pos.2 (stripped_pos (kept_pos nonzero few))

theorem figures_rounded_add :
    (x.rounded count).figures + trailingZeros (keptFigures x.mantissa.natAbs count) =
      digitCount (keptFigures x.mantissa.natAbs count) :=
  digitCount_stripped (kept_pos nonzero few)

theorem firstPlace_rounded_eq : (x.rounded count).firstPlace =
    digitCount (keptFigures x.mantissa.natAbs count) - 1 + x.exponent +
      (x.figures - count : Nat) := by
  have total := figures_rounded_add nonzero few
  have exponent : (x.rounded count).exponent = x.exponent + (x.figures - count : Nat) +
    trailingZeros (keptFigures x.mantissa.natAbs count) := rfl
  rw [firstPlace_eq]
  omega

/-- The first place stays, but for a carry into a new one, of which nothing but a power of ten is
left. -/
theorem firstPlace_rounded :
    (x.rounded count).firstPlace = x.firstPlace ∧
        digitCount (keptFigures x.mantissa.natAbs count) = min count x.figures ∨
      (x.rounded count).firstPlace = x.firstPlace + 1 ∧
        keptFigures x.mantissa.natAbs count = tenTo count ∧ (x.rounded count).figures = 1 := by
  rw [firstPlace_rounded_eq nonzero few, firstPlace_eq]
  rcases Nat.lt_or_ge count x.figures with long | short
  · rcases digitCount_keptFigures (Int.natAbs_pos.2 nonzero) few long with same | carry
    · left
      omega
    · right
      have total := figures_rounded_add nonzero few
      have one : (x.rounded count).figures = 1 := by
        show digitCount (stripped (keptFigures x.mantissa.natAbs count)) = 1
        rw [carry, stripped_tenTo, digitCount_of_lt (by decide)]
      rw [carry, digitCount_tenTo]
      exact ⟨by omega, rfl, one⟩
  · left
    rw [keptFigures_of_le short]
    rw [figures] at *
    omega

theorem figures_rounded_le : (x.rounded count).figures ≤ count := by
  have total := figures_rounded_add nonzero few
  rcases firstPlace_rounded nonzero few with ⟨-, kept⟩ | ⟨-, -, one⟩
  · omega
  · omega

theorem firstPlace_le_rounded : x.firstPlace ≤ (x.rounded count).firstPlace := by
  rcases firstPlace_rounded nonzero few with ⟨same, -⟩ | ⟨next, -, -⟩ <;> omega

/-- Rounding does not go below the first place. -/
theorem ten_zpow_le_roundTo : 10 ^ x.firstPlace ≤ roundTo count |x.toRat| := by
  have pos := mantissa_rounded_pos nonzero few
  have magnitude : |(x.rounded count).toRat| = (x.rounded count).toRat :=
    abs_of_pos (mul_pos (Int.cast_pos.2 pos) (ten_zpow_pos _))
  calc (10 : ℚ) ^ x.firstPlace ≤ 10 ^ (x.rounded count).firstPlace :=
        zpow_le_zpow_right₀ (by norm_num) (firstPlace_le_rounded nonzero few)
    _ ≤ |(x.rounded count).toRat| := ten_zpow_firstPlace_le pos.ne'
    _ = roundTo count |x.toRat| := by rw [magnitude, toRat_rounded nonzero]

theorem not_dvd_mantissa_rounded : ¬ (10 : Int) ∣ (x.rounded count).mantissa := by
  have last : ¬ 10 ∣ stripped (keptFigures x.mantissa.natAbs count) :=
    not_ten_dvd_div_trailingZeros (kept_pos nonzero few)
  exact fun ten => last (Int.natCast_dvd_natCast.1 ten)

theorem canonical_rounded (canonical : x.Canonical) : (x.rounded count).Canonical := by
  have pos := mantissa_rounded_pos nonzero few
  have fits : (x.rounded count).figures ≤ precision := by
    have most : x.figures ≤ precision := digitCount_of_canonical canonical
    have total := figures_rounded_add nonzero few
    rcases firstPlace_rounded nonzero few with ⟨-, kept⟩ | ⟨-, -, one⟩
    · omega
    · rw [one]
      decide
  unfold Canonical
  rw [if_neg pos.ne']
  exact ⟨not_dvd_mantissa_rounded nonzero few, fits⟩

end Rounded

theorem roundTo_abs_eq_zero_iff (few : 0 < count) :
    roundTo count |x.toRat| = 0 ↔ x.toRat = 0 := by
  constructor
  · intro vanishes
    by_contra nonzero
    have mantissa : x.mantissa ≠ 0 := fun zero => nonzero (toRat_eq_zero_iff.2 zero)
    rw [← toRat_rounded mantissa, toRat_eq_zero_iff] at vanishes
    exact (mantissa_rounded_pos mantissa few).ne' vanishes
  · intro zero
    rw [zero, abs_zero, roundTo_zero]

section Comparison
variable (canonical : x.Canonical) (nonzero : x.mantissa ≠ 0) (le : coarse ≤ fine)
include canonical nonzero le

/-- A number that needs only some of the figures it was rounded to is the same rounded to those. -/
theorem rounded_coarse (few : 0 < coarse) (short : (x.rounded fine).figures ≤ coarse) :
    x.rounded coarse = x.rounded fine := by
  have more : 0 < fine := by omega
  have place : x.firstPlace + 1 - coarse ≤ (x.rounded fine).exponent := by
    have first := firstPlace_eq (x.rounded fine)
    rcases firstPlace_rounded nonzero more with ⟨same, -⟩ | ⟨next, -, -⟩ <;> omega
  have multiple := toRat_widen place
  rw [toRat_rounded nonzero] at multiple
  have same := roundTo_coarse le (ten_zpow_firstPlace_le nonzero) (lt_ten_zpow_firstPlace x) multiple
  rw [← toRat_rounded nonzero, ← toRat_rounded nonzero] at same
  exact eq_of_toRat_eq (canonical_rounded nonzero few canonical)
    (canonical_rounded nonzero more canonical) same

/-- A carry with more figures is also one with fewer. -/
theorem firstPlace_rounded_anti (few : 0 < coarse) :
    (x.rounded fine).firstPlace ≤ (x.rounded coarse).firstPlace := by
  rcases firstPlace_rounded nonzero (show 0 < fine by omega) with ⟨same, -⟩ | ⟨-, -, one⟩
  · rcases firstPlace_rounded nonzero few with ⟨same', -⟩ | ⟨next, -, -⟩ <;> omega
  · rw [rounded_coarse canonical nonzero le few (by omega)]

omit canonical in
theorem abs_toRat_rounded_sub_anti :
    |(x.rounded fine).toRat - (|x.toRat|)| ≤ |(x.rounded coarse).toRat - (|x.toRat|)| := by
  rw [toRat_rounded nonzero, toRat_rounded nonzero]
  exact abs_roundTo_sub_anti le (ten_zpow_firstPlace_le nonzero) (lt_ten_zpow_firstPlace x)

end Comparison

/-- The order is that of the first digit unless it stops at the greatest exponent. -/
theorem leadingOrder_eq (held : x.Held) (within : x.firstPlace ≤ greatestExponent) :
    x.leadingOrder = x.firstPlace := by
  have digits := digitCount_pos x.mantissa.natAbs
  have least := held.least
  have place : x.exponent + digitCount x.mantissa.natAbs - 1 = x.firstPlace := by
    rw [firstPlace]
    omega
  rw [leadingOrder, place]
  exact saturate_of_mem (by rw [← place]; omega) within

theorem leadingOrder_le (held : x.Held) : x.leadingOrder ≤ x.firstPlace := by
  have digits := digitCount_pos x.mantissa.natAbs
  have least := held.least
  rw [leadingOrder, firstPlace]
  unfold saturate
  omega

theorem order_eq (nonzero : x.mantissa ≠ 0) : x.order = x.leadingOrder := by
  rw [order, order?, if_neg (show ¬ x.IsZero from nonzero), Option.getD_some]

/-- The order of a decimal that is written out, with `k` digits after the first one. -/
theorem order_of_written {m e : Int} (k : Nat)
    (written : tenTo k ≤ m.natAbs ∧ m.natAbs < tenTo (k + 1)) :
    order ⟨m, e⟩ = saturate (e + k) := by
  have pos : 0 < m.natAbs := (tenTo_pos k).trans_le written.1
  have place : e + (k + 1 : Nat) - 1 = e + k := by omega
  rw [order_eq (Int.natAbs_pos.1 pos), leadingOrder, (digitCount_eq_iff pos).2 written, place]

theorem leadingDigits_of_kept (nonzero : x.mantissa ≠ 0) (few : 0 < count) :
    x.leadingDigits count =
      if count < digitCount (keptFigures x.mantissa.natAbs count) then
        (decimalDigits (keptFigures x.mantissa.natAbs count / 10), x.leadingOrder + 1)
      else
        (decimalDigits (keptFigures x.mantissa.natAbs count) ++
          List.replicate (count - digitCount (keptFigures x.mantissa.natAbs count)) '0',
          x.leadingOrder) := by
  have atLeast : max count 1 = count := by omega
  unfold leadingDigits
  simp only [atLeast]
  exact if_neg nonzero

/-- The leading digits are those of the rounded number, filled up with zeros, as long as its order
can be held. -/
theorem leadingDigits_eq (nonzero : x.mantissa ≠ 0) (few : 0 < count)
    (unlimited : x.leadingOrder = x.firstPlace) :
    x.leadingDigits count =
      (decimalDigits (x.rounded count).mantissa.natAbs ++
        List.replicate (count - (x.rounded count).figures) '0', (x.rounded count).firstPlace) := by
  have total := figures_rounded_add nonzero few
  have mantissa : (x.rounded count).mantissa.natAbs =
    stripped (keptFigures x.mantissa.natAbs count) := rfl
  rw [leadingDigits_of_kept nonzero few, unlimited, mantissa]
  rcases firstPlace_rounded nonzero few with ⟨same, kept⟩ | ⟨next, carry, one⟩
  · have zeros : trailingZeros (keptFigures x.mantissa.natAbs count) +
        (count - digitCount (keptFigures x.mantissa.natAbs count)) =
          count - (x.rounded count).figures := by
      omega
    rw [if_neg (by omega), same, decimalDigits_stripped (kept_pos nonzero few), List.append_assoc,
      List.replicate_append_replicate, zeros]
  · have tenth : tenTo count / 10 = 1 * tenTo (count - 1) := by
      obtain ⟨k, rfl⟩ : ∃ k, count = k + 1 := ⟨count - 1, by omega⟩
      rw [tenTo_succ, Nat.mul_div_cancel _ (by decide), Nat.add_sub_cancel, Nat.one_mul]
    rw [one, carry, if_pos (by rw [digitCount_tenTo]; omega), next, stripped_tenTo, tenth,
      decimalDigits_mul_tenTo (by decide)]

end Decimal

end ScientificCalculator
