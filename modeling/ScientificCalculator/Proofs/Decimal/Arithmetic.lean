import ScientificCalculator.Proofs.Decimal.Significant

/-!
Sums, differences and products are the exact ones, rounded once. A term far below the last digit of
the other one does not change the rounded sum, not even just below a power of ten, where the digits
stand one place lower.
-/

namespace ScientificCalculator

section Absorption
variable {q a b : ℚ} {k n : Int}

theorem multiple_add_le {m n : Int} {u : ℚ} (pos : 0 < u) (lt : m * u < n * u) :
    m * u + u ≤ n * u := by
  have next : m + 1 ≤ n := by exact_mod_cast lt_of_mul_lt_mul_right lt pos.le
  have next' : (m : ℚ) + 1 ≤ n := by exact_mod_cast next
  linarith [mul_le_mul_of_nonneg_right next' pos.le]

/-- Just below a power of ten the last place is one lower than that of the power, but the power is
still the nearest. -/
theorem roundMagnitude_below_power (below : q < 10 ^ k)
    (near : 10 ^ k - 10 ^ (k - 1 - precision) ≤ q) : roundMagnitude q = 10 ^ k := by
  have digits : (precision : Int) = 60 := rfl
  have small := ten_zpow_pos (k - 1 - precision)
  have unit : (10 : ℚ) ^ (k - 1 + 1 - precision) = 10 ^ 1 * 10 ^ (k - 1 - precision) :=
    ten_zpow_eq_mul 1 (by omega)
  have bottom : (10 : ℚ) ^ (k - 1) = 10 ^ 60 * 10 ^ (k - 1 - precision) :=
    ten_zpow_eq_mul 60 (by omega)
  have top : (10 : ℚ) ^ k = 10 ^ 61 * 10 ^ (k - 1 - precision) := ten_zpow_eq_mul 61 (by omega)
  have nearest : roundMagnitude q = ((10 ^ 60 : Int) : ℚ) * 10 ^ (k - 1 + 1 - precision) := by
    apply roundMagnitude_eq
    · linarith
    · rwa [sub_add_cancel]
    · rw [unit]
      push_cast
      linarith
    · rw [unit]
      push_cast
      linarith
  rw [nearest, top, unit]
  push_cast
  ring

/-- A number with `precision` digits is the rounding of the numbers nearby, also if it is a power of
ten and they are below it. -/
theorem roundMagnitude_near (low : 10 ^ k ≤ a) (high : a < 10 ^ (k + 1))
    (multiple : a = n * 10 ^ (k + 1 - precision))
    (near : |q - a| ≤ 10 ^ (k - 1 - precision)) : roundMagnitude q = a := by
  have digits : (precision : Int) = 60 := rfl
  have unit := ten_zpow_pos (k + 1 - precision)
  have margin : (10 : ℚ) ^ (k + 1 - precision) = 10 ^ 2 * 10 ^ (k - 1 - precision) :=
    ten_zpow_eq_mul 2 (by omega)
  obtain ⟨under, upper⟩ := abs_le.1 near
  rcases le_or_gt (10 ^ k) q with inside | below
  · have next : (10 : ℚ) ^ (k + 1) = ((10 ^ 60 : Int) : ℚ) * 10 ^ (k + 1 - precision) := by
      rw [ten_zpow_eq_mul 60 (by omega : k + 1 = (60 : Nat) + (k + 1 - precision))]
      norm_cast
    have room : a + 10 ^ (k + 1 - precision) ≤ 10 ^ (k + 1) := by
      rw [multiple, next] at high
      rw [multiple, next]
      exact multiple_add_le unit high
    rw [multiple]
    apply roundMagnitude_eq inside <;> linarith
  · have first : (10 : ℚ) ^ k = ((10 ^ 59 : Int) : ℚ) * 10 ^ (k + 1 - precision) := by
      rw [ten_zpow_eq_mul 59 (by omega : k = (59 : Nat) + (k + 1 - precision))]
      norm_cast
    have power : a = 10 ^ k := by
      apply le_antisymm _ low
      by_contra more
      rw [not_le, first, multiple] at more
      have room := multiple_add_le unit more
      rw [← first, ← multiple] at room
      linarith
    rw [power]
    exact roundMagnitude_below_power below (by linarith)

/-- The same for a number of either sign with an addend. -/
theorem roundSignificant_add_near (low : 10 ^ k ≤ |a|) (high : |a| < 10 ^ (k + 1))
    (multiple : |a| = n * 10 ^ (k + 1 - precision)) (near : |b| ≤ 10 ^ (k - 1 - precision)) :
    roundSignificant (a + b) = a := by
  have small : (10 : ℚ) ^ (k - 1 - precision) < 10 ^ k :=
    zpow_lt_zpow_right₀ (by norm_num) (by simp [precision]; omega)
  obtain ⟨under, upper⟩ := abs_le.1 near
  rcases abs_cases a with ⟨same, nonneg⟩ | ⟨opposite, negative⟩
  · rw [same] at low high multiple
    have pos : 0 < a + b := by linarith
    rw [roundSignificant_of_pos pos]
    exact roundMagnitude_near low high multiple (by rwa [add_sub_cancel_left])
  · rw [opposite] at low high multiple
    have pos : 0 < -(a + b) := by linarith
    have shifted : |-(a + b) - -a| ≤ 10 ^ (k - 1 - precision) := by
      have difference : -(a + b) - -a = -b := by ring
      rwa [difference, abs_neg]
    have nearest := roundMagnitude_near low high multiple shifted
    rw [← roundSignificant_of_pos pos, roundSignificant_neg] at nearest
    exact neg_injective nearest

end Absorption

namespace Decimal
variable {x y : Decimal}

/-- The power of ten at the first digit, wherever it is. -/
def firstPlace (x : Decimal) : Int := (digitCount x.mantissa.natAbs : Int) - 1 + x.exponent

theorem abs_toRat (x : Decimal) : |x.toRat| = x.mantissa.natAbs * 10 ^ x.exponent := by
  rw [toRat, abs_mul, abs_of_pos (ten_zpow_pos _), Nat.cast_natAbs, Int.cast_abs]

theorem ten_zpow_firstPlace_le (nonzero : x.mantissa ≠ 0) : 10 ^ x.firstPlace ≤ |x.toRat| := by
  rw [abs_toRat]
  exact ten_zpow_le_parts (Int.natAbs_pos.2 nonzero) x.exponent

theorem lt_ten_zpow_firstPlace (x : Decimal) : |x.toRat| < 10 ^ (x.firstPlace + 1) := by
  have next : x.firstPlace + 1 = digitCount x.mantissa.natAbs + x.exponent := by
    rw [firstPlace]
    omega
  rw [abs_toRat, next]
  exact parts_lt_ten_zpow _ _

/-- Adding to a canonical number one that is far smaller does not change the rounded sum. -/
theorem roundSignificant_add_small (canonical : x.Canonical) (nonzero : x.mantissa ≠ 0) {b : ℚ}
    (small : |b| ≤ 10 ^ (x.firstPlace - 1 - precision)) :
    roundSignificant (x.toRat + b) = x.toRat := by
  have multiple := parts_eq_multiple (digitCount_of_canonical canonical) x.exponent
  rw [← abs_toRat] at multiple
  exact roundSignificant_add_near (ten_zpow_firstPlace_le nonzero) (lt_ten_zpow_firstPlace x)
    multiple small

theorem roundSignificant_toRat (canonical : x.Canonical) : roundSignificant x.toRat = x.toRat := by
  by_cases zero : x.mantissa = 0
  · rw [toRat_eq_zero_iff.2 zero, roundSignificant_zero]
  · have small : |(0 : ℚ)| ≤ 10 ^ (x.firstPlace - 1 - precision) := by
      rw [abs_zero]
      exact (ten_zpow_pos _).le
    have unchanged := roundSignificant_add_small canonical zero small
    rwa [add_zero] at unchanged

theorem roundSignificant_add_of_far (canonical : x.Canonical) (nonzero : x.mantissa ≠ 0)
    (far : (precision : Int) + 2 < saturate (x.leadingOrder - y.leadingOrder)) :
    roundSignificant (x.toRat + y.toRat) = x.toRat := by
  have apart : (precision : Int) + 2 < x.firstPlace - y.firstPlace := by
    unfold leadingOrder saturate leastExponent greatestExponent precision at far
    unfold firstPlace precision
    omega
  apply roundSignificant_add_small canonical nonzero
  have lower : y.firstPlace + 1 ≤ x.firstPlace - 1 - precision := by omega
  exact (lt_ten_zpow_firstPlace y).le.trans (zpow_le_zpow_right₀ (by norm_num) lower)

/-- The sum over the common exponent, however far the orders of the terms are apart. -/
def alignedSum (x y : Decimal) : Decimal :=
  let common := min x.exponent y.exponent
  ofParts (x.mantissa * tenTo (x.exponent - common).toNat +
    y.mantissa * tenTo (y.exponent - common).toNat) common

theorem alignedSum_eq_of_toRat_eq {z : Decimal} (held : z.Held)
    (value : z.toRat = roundSignificant (x.toRat + y.toRat)) : alignedSum x y = z := by
  apply ofParts_eq_of_toRat_eq held
  rw [value, toRat_widen (min_le_left x.exponent y.exponent),
    toRat_widen (min_le_right x.exponent y.exponent), ← add_mul, Int.cast_add]

/-- A sum is taken over the common exponent unless it is rounded to one of its terms. -/
theorem add_cases (first : x.Canonical) (second : y.Canonical) :
    x + y = alignedSum x y ∨
      x + y = x ∧ roundSignificant (x.toRat + y.toRat) = x.toRat ∨
      x + y = y ∧ roundSignificant (x.toRat + y.toRat) = y.toRat := by
  show add x y = _ ∨ add x y = _ ∧ _ ∨ add x y = _ ∧ _
  unfold add
  split
  · rename_i zero
    rw [toRat_eq_zero_iff.2 zero, zero_add]
    exact .inr (.inr ⟨rfl, roundSignificant_toRat second⟩)
  · split
    · rename_i zero
      rw [toRat_eq_zero_iff.2 zero, add_zero]
      exact .inr (.inl ⟨rfl, roundSignificant_toRat first⟩)
    · rename_i nonzero nonzero'
      split
      · exact .inr (.inl ⟨rfl, roundSignificant_add_of_far first nonzero ‹_›⟩)
      · split
        · rw [add_comm x.toRat]
          exact .inr (.inr ⟨rfl, roundSignificant_add_of_far second nonzero' ‹_›⟩)
        · exact .inl rfl

theorem toRat_add (first : x.Canonical) (second : y.Canonical)
    (representable : Representable (roundSignificant (x.toRat + y.toRat))) :
    (x + y).toRat = roundSignificant (x.toRat + y.toRat) := by
  obtain ⟨z, held, value⟩ := representable
  rcases add_cases first second with aligned | ⟨kept, rounded⟩ | ⟨kept, rounded⟩
  · rw [aligned, alignedSum_eq_of_toRat_eq held value, value]
  · rw [kept, rounded]
  · rw [kept, rounded]

theorem add_eq_alignedSum (first : x.Held) (second : y.Held) : x + y = alignedSum x y := by
  rcases add_cases first.canonical second.canonical with aligned | ⟨kept, rounded⟩ | ⟨kept, rounded⟩
  · exact aligned
  · rw [kept, alignedSum_eq_of_toRat_eq first rounded.symm]
  · rw [kept, alignedSum_eq_of_toRat_eq second rounded.symm]

theorem toRat_mul_toRat (x y : Decimal) : x.toRat * y.toRat =
    ((x.mantissa * y.mantissa : Int) : ℚ) * 10 ^ (x.exponent + y.exponent) := by
  rw [toRat, toRat, zpow_add₀ (by norm_num), Int.cast_mul]
  ring

theorem toRat_mul (unlimited : leastExponent ≤ x.exponent + y.exponent)
    (representable : Representable (roundSignificant (x.toRat * y.toRat))) :
    (x * y).toRat = roundSignificant (x.toRat * y.toRat) := by
  obtain ⟨z, held, value⟩ := representable
  rw [toRat_mul_toRat] at value
  have product : x * y = ofParts (x.mantissa * y.mantissa) (x.exponent + y.exponent) := by
    show ofParts _ (saturate (x.exponent + y.exponent)) = _
    by_cases zero : x.mantissa * y.mantissa = 0
    · rw [zero, ofParts_zero, ofParts_zero]
    · have full := eq_of_toRat_eq_round held.canonical zero value
      have exponent : z.exponent = fullExponent _ _ := congrArg Decimal.exponent full
      have least := le_fullExponent (x.mantissa * y.mantissa) (x.exponent + y.exponent)
      rw [saturate_of_mem unlimited (least.trans (exponent ▸ held.greatest))]
  rw [product, ofParts_eq_of_toRat_eq held value, value, toRat_mul_toRat]

theorem Held.neg (held : x.Held) : (-x).Held :=
  ⟨canonical_neg held.canonical, held.least, held.greatest⟩

/-- A sum, difference or product is the exact one, rounded once, wherever a decimal can hold that.
By `representable_iff`, only exponents that stop at an end of their range are left out. The sum
over the common exponent is the sum also where its computation is cut short. -/
theorem arithmetic_correctly_rounded (first : x.Held) (second : y.Held) :
    (Representable (roundSignificant (x.toRat + y.toRat)) →
      (x + y).toRat = roundSignificant (x.toRat + y.toRat)) ∧
    (Representable (roundSignificant (x.toRat - y.toRat)) →
      (x - y).toRat = roundSignificant (x.toRat - y.toRat)) ∧
    (leastExponent ≤ x.exponent + y.exponent →
      Representable (roundSignificant (x.toRat * y.toRat)) →
      (x * y).toRat = roundSignificant (x.toRat * y.toRat)) ∧
    x + y = alignedSum x y ∧ x - y = alignedSum x (-y) := by
  refine ⟨toRat_add first.canonical second.canonical, ?_, toRat_mul,
    add_eq_alignedSum first second, add_eq_alignedSum first second.neg⟩
  rw [sub_eq_add_neg, ← toRat_neg]
  exact toRat_add first.canonical second.neg.canonical

/-- One less a number sixty-three places below it is short of a power of ten by less than a digit
that is kept. -/
theorem one_sub_far_below :
    ((⟨1, 0⟩ : Decimal) - ⟨1, -63⟩).toRat =
        roundSignificant ((⟨1, 0⟩ : Decimal).toRat - (⟨1, -63⟩ : Decimal).toRat) ∧
      (⟨1, 0⟩ : Decimal) - ⟨1, -63⟩ = alignedSum ⟨1, 0⟩ (-⟨1, -63⟩) := by
  have one : Held ⟨1, 0⟩ := ⟨by decide +kernel, by decide, by decide⟩
  have small : Held ⟨1, -63⟩ := ⟨by decide +kernel, by decide, by decide⟩
  have far : (precision : Int) + 2 <
      saturate (leadingOrder ⟨1, 0⟩ - leadingOrder (-⟨1, -63⟩)) := by decide +kernel
  have rounded := roundSignificant_add_of_far one.canonical (by decide) far
  rw [toRat_neg, ← sub_eq_add_neg] at rounded
  have correct := arithmetic_correctly_rounded one small
  exact ⟨correct.2.1 ⟨_, one, rounded.symm⟩, correct.2.2.2.2⟩

end Decimal

end ScientificCalculator
