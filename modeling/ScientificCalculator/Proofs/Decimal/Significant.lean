import Mathlib.Data.Sign.Basic
import Mathlib.Tactic.Ring
import ScientificCalculator.Proofs.Canonical.Functions
import ScientificCalculator.Proofs.Decimal.Value

/-!
Rounding of rational numbers to the digits that a decimal keeps, a half going away from zero. The
rounding of integer parts to a decimal is this rounding of their value, as long as the decimal can
be held.
-/

namespace ScientificCalculator

/-- The place of the last digit that is kept of a positive number. -/
def lastPlace (q : ℚ) : Int := Int.log 10 q + 1 - precision

def roundMagnitude (q : ℚ) : ℚ := ⌊q / 10 ^ lastPlace q + 1 / 2⌋ * 10 ^ lastPlace q

/-- The number with `precision` significant digits that is nearest to `q`, a half going away from
zero. -/
def roundSignificant (q : ℚ) : ℚ := SignType.sign q * roundMagnitude |q|

section Rational
variable {q : ℚ}

theorem roundSignificant_zero : roundSignificant 0 = 0 := by
  rw [roundSignificant, sign_zero, SignType.coe_zero, zero_mul]

theorem roundSignificant_of_pos (pos : 0 < q) : roundSignificant q = roundMagnitude q := by
  rw [roundSignificant, sign_pos pos, abs_of_pos pos, SignType.coe_one, one_mul]

theorem roundSignificant_neg (q : ℚ) : roundSignificant (-q) = -roundSignificant q := by
  rw [roundSignificant, roundSignificant, abs_neg, Left.sign_neg, SignType.coe_neg, neg_mul]

theorem lastPlace_eq {k : Int} (low : 10 ^ k ≤ q) (high : q < 10 ^ (k + 1)) :
    lastPlace q = k + 1 - precision := by
  have pos : 0 < q := lt_of_lt_of_le (ten_zpow_pos k) low
  have least : k ≤ Int.log 10 q :=
    (Int.zpow_le_iff_le_log (by decide) pos).1 (by exact_mod_cast low)
  have greatest : Int.log 10 q < k + 1 :=
    (Int.lt_zpow_iff_log_lt (by decide) pos).1 (by exact_mod_cast high)
  rw [lastPlace]
  omega

/-- A multiple of the last place is the rounded number if it is at most half a unit above the number
or less than that below it. -/
theorem roundMagnitude_eq {k n : Int} (low : 10 ^ k ≤ q) (high : q < 10 ^ (k + 1))
    (below : n * 10 ^ (k + 1 - precision) ≤ q + 10 ^ (k + 1 - precision) / 2)
    (above : q + 10 ^ (k + 1 - precision) / 2 < (n + 1) * 10 ^ (k + 1 - precision)) :
    roundMagnitude q = n * 10 ^ (k + 1 - precision) := by
  have unit := ten_zpow_pos (k + 1 - precision)
  rw [roundMagnitude, lastPlace_eq low high]
  generalize (10 : ℚ) ^ (k + 1 - precision) = u at *
  have nearest : ⌊q / u + 1 / 2⌋ = n := by
    rw [Int.floor_eq_iff]
    have shifted : q / u + 1 / 2 = (q + u / 2) / u := by
      field_simp
    rw [shifted, le_div_iff₀ unit, div_lt_iff₀ unit]
    exact ⟨below, above⟩
  rw [nearest]

theorem roundMagnitude_of_multiple {k n : Int} (low : 10 ^ k ≤ q) (high : q < 10 ^ (k + 1))
    (multiple : q = n * 10 ^ (k + 1 - precision)) : roundMagnitude q = q := by
  have unit := ten_zpow_pos (k + 1 - precision)
  have same : roundMagnitude q = n * 10 ^ (k + 1 - precision) :=
    roundMagnitude_eq low high (by linarith) (by linarith)
  rw [same, multiple]

end Rational

section Parts

theorem ten_zpow_le_parts {n : Nat} (pos : 0 < n) (e : Int) :
    (10 : ℚ) ^ ((digitCount n : Int) - 1 + e) ≤ n * 10 ^ e := by
  have count := digitCount_pos n
  have places : (digitCount n : Int) - 1 = (digitCount n - 1 : Nat) := by omega
  have least : ((tenTo (digitCount n - 1) : Nat) : ℚ) ≤ n := by exact_mod_cast tenTo_le_of_pos pos
  rw [zpow_add₀ (by norm_num), places, zpow_natCast, ← natCast_tenTo]
  exact mul_le_mul_of_nonneg_right least (ten_zpow_pos e).le

theorem parts_lt_ten_zpow (n : Nat) (e : Int) :
    (n : ℚ) * 10 ^ e < 10 ^ ((digitCount n : Int) + e) := by
  have below : (n : ℚ) < ((tenTo (digitCount n) : Nat) : ℚ) := by
    exact_mod_cast lt_tenTo_digitCount n
  rw [zpow_add₀ (by norm_num), zpow_natCast, ← natCast_tenTo]
  exact mul_lt_mul_of_pos_right below (ten_zpow_pos e)

theorem parts_eq_multiple {n : Nat} (fits : digitCount n ≤ precision) (e : Int) :
    (n : ℚ) * 10 ^ e = ((n * tenTo (precision - digitCount n) : Nat) : Int) *
      10 ^ ((digitCount n : Int) - 1 + e + 1 - precision) := by
  have places : e = (precision - digitCount n : Nat) +
      ((digitCount n : Int) - 1 + e + 1 - precision) := by omega
  rw [Int.cast_natCast, Nat.cast_mul, natCast_tenTo, mul_assoc, ← ten_zpow_eq_mul _ places]

/-- Rounding the value of a positive mantissa is rounding the mantissa. -/
theorem roundMagnitude_parts {n : Nat} (pos : 0 < n) (e : Int) :
    roundMagnitude (n * 10 ^ e) =
      roundedMagnitude n * 10 ^ (e + (digitCount n - precision : Nat)) := by
  have low := ten_zpow_le_parts pos e
  have high : (n : ℚ) * 10 ^ e < 10 ^ ((digitCount n : Int) - 1 + e + 1) := by
    have next : (digitCount n : Int) - 1 + e + 1 = digitCount n + e := by omega
    rw [next]
    exact parts_lt_ten_zpow n e
  by_cases fits : digitCount n ≤ precision
  · have dropped : digitCount n - precision = 0 := Nat.sub_eq_zero_of_le fits
    have whole : roundedMagnitude n = n := by
      rw [roundedMagnitude, dropped, tenTo_zero, roundDivNat_one]
    rw [roundMagnitude_of_multiple low high (parts_eq_multiple fits e), whole, dropped,
      Nat.cast_zero, add_zero]
  · have long : precision ≤ digitCount n := by omega
    have place : (digitCount n : Int) - 1 + e + 1 - precision =
        e + (digitCount n - precision : Nat) := by omega
    have unit : (10 : ℚ) ^ (e + (digitCount n - precision : Nat)) =
        tenTo (digitCount n - precision) * 10 ^ e := by
      rw [natCast_tenTo, ten_zpow_eq_mul _ (add_comm e _)]
    obtain ⟨below, above⟩ := (roundDivNat_eq_iff (tenTo_pos (digitCount n - precision))).1
      (Eq.refl (roundedMagnitude n))
    have below' : 2 * (roundedMagnitude n : ℚ) * tenTo (digitCount n - precision) ≤
        2 * n + tenTo (digitCount n - precision) := by exact_mod_cast below
    have above' : 2 * (n : ℚ) + tenTo (digitCount n - precision) <
        2 * (roundedMagnitude n + 1) * tenTo (digitCount n - precision) := by exact_mod_cast above
    have scaled := mul_le_mul_of_nonneg_right below' (ten_zpow_pos e).le
    have scaled' := mul_lt_mul_of_pos_right above' (ten_zpow_pos e)
    have nearest := @roundMagnitude_eq _ _ (roundedMagnitude n : Int) low high
    rw [place, unit] at nearest
    rw [unit]
    exact nearest (by push_cast; linarith) (by push_cast; linarith)

end Parts

namespace Decimal
variable {m e : Int}

/-- The exponent of the rounded and stripped parts before it is kept in its range. -/
def fullExponent (m e : Int) : Int :=
  e + (digitCount m.natAbs - precision : Nat) + trailingZeros (roundedMagnitude m.natAbs)

theorem exponent_ofParts (nonzero : m ≠ 0) :
    (ofParts m e).exponent = saturate (fullExponent m e) := by
  unfold ofParts
  rw [if_neg nonzero]
  simp only [natAbs_roundDiv _ nonzero]
  rfl

theorem mantissa_ofParts_natCast {n : Nat} (pos : 0 < n) :
    (ofParts n e).mantissa = stripped (roundedMagnitude n) := by
  have nonzero : (n : Int) ≠ 0 := by omega
  unfold ofParts
  rw [if_neg nonzero]
  simp only [Int.natAbs_natCast, roundDiv_natCast]
  rfl

theorem mantissa_mul_ofParts_natCast {n : Nat} (pos : 0 < n) (e : Int) :
    ((ofParts n e).mantissa : ℚ) * 10 ^ fullExponent n e = roundSignificant (n * 10 ^ e) := by
  have value : (0 : ℚ) < n * 10 ^ e := mul_pos (by exact_mod_cast pos) (ten_zpow_pos e)
  have whole : stripped (roundedMagnitude n) * tenTo (trailingZeros (roundedMagnitude n)) =
      roundedMagnitude n := Nat.div_mul_cancel (tenTo_trailingZeros_dvd _)
  have whole' : (stripped (roundedMagnitude n) : ℚ) *
      tenTo (trailingZeros (roundedMagnitude n)) = roundedMagnitude n := by exact_mod_cast whole
  rw [roundSignificant_of_pos value, roundMagnitude_parts pos, ← whole', natCast_tenTo,
    mantissa_ofParts_natCast pos, fullExponent, zpow_add₀ (by norm_num) _ (Nat.cast _),
    zpow_natCast, Int.natAbs_natCast, Int.cast_natCast]
  ring

/-- But for the ends of the exponent range, the decimal of some parts is their value rounded. -/
theorem mantissa_mul_ofParts (nonzero : m ≠ 0) :
    ((ofParts m e).mantissa : ℚ) * 10 ^ fullExponent m e = roundSignificant (m * 10 ^ e) := by
  have pos : 0 < m.natAbs := Int.natAbs_pos.2 nonzero
  have magnitude := mantissa_mul_ofParts_natCast pos e
  rcases Int.natAbs_eq m with same | opposite
  · rw [same, Int.cast_natCast]
    exact magnitude
  · have exponent : fullExponent (-(m.natAbs : Int)) e = fullExponent m.natAbs e := by
      rw [fullExponent, fullExponent, Int.natAbs_neg]
    have mantissa : (-ofParts m.natAbs e).mantissa = -(ofParts m.natAbs e).mantissa := rfl
    rw [opposite, exponent, ofParts_neg, mantissa, Int.cast_neg, Int.cast_neg, neg_mul, neg_mul,
      roundSignificant_neg, Int.cast_natCast, magnitude]

theorem mantissa_ofParts_ne_zero (nonzero : m ≠ 0) : (ofParts m e).mantissa ≠ 0 := by
  intro vanished
  have last := not_ten_dvd_div_trailingZeros (roundedMagnitude_pos (Int.natAbs_pos.2 nonzero))
  have magnitude := natAbs_mantissa_ofParts e nonzero
  rw [vanished, Int.natAbs_zero] at magnitude
  rw [stripped] at magnitude
  exact last (magnitude ▸ Nat.dvd_zero 10)

/-- Canonical, with an exponent in the signed 64-bit range. -/
structure Held (x : Decimal) : Prop where
  canonical : x.Canonical
  least : leastExponent ≤ x.exponent
  greatest : x.exponent ≤ greatestExponent

theorem held_ofParts (m e : Int) : (ofParts m e).Held := by
  by_cases zero : m = 0
  · rw [zero, ofParts_zero]
    exact ⟨canonical_zero, by decide, by decide⟩
  · obtain ⟨least, greatest⟩ := saturate_bounds (fullExponent m e)
    rw [← exponent_ofParts zero] at least greatest
    exact ⟨canonical_ofParts m e, least, greatest⟩

/-- A decimal that is written out, with a last digit other than zero. -/
theorem held_of_written (written : (m.natAbs < tenTo precision ∧ ¬ (10 : Int) ∣ m) ∧
    leastExponent ≤ e ∧ e ≤ greatestExponent) : Held ⟨m, e⟩ := by
  obtain ⟨⟨short, last⟩, least, greatest⟩ := written
  have nonzero : m ≠ 0 := by
    rintro rfl
    exact last (dvd_zero 10)
  have canonical : Canonical ⟨m, e⟩ := by
    rw [Canonical, if_neg nonzero]
    exact ⟨last, digitCount_le (by decide) short⟩
  exact ⟨canonical, least, greatest⟩

theorem le_fullExponent (m e : Int) : e ≤ fullExponent m e := by
  rw [fullExponent]
  omega

theorem eq_of_toRat_eq_round {z : Decimal} (canonical : z.Canonical) (nonzero : m ≠ 0)
    (value : z.toRat = roundSignificant (m * 10 ^ e)) :
    z = ⟨(ofParts m e).mantissa, fullExponent m e⟩ := by
  have form : Canonical ⟨(ofParts m e).mantissa, fullExponent m e⟩ :=
    canonical_withExponent (canonical_ofParts m e) (mantissa_ofParts_ne_zero nonzero) _
  exact eq_of_toRat_eq canonical form (value.trans (mantissa_mul_ofParts nonzero).symm)

/-- A decimal can hold the number. -/
def Representable (q : ℚ) : Prop := ∃ z : Decimal, z.Held ∧ z.toRat = q

/-- The rounded value of some parts can be held exactly if the exponent stays in its range. -/
theorem representable_iff (nonzero : m ≠ 0) :
    Representable (roundSignificant (m * 10 ^ e)) ↔
      saturate (fullExponent m e) = fullExponent m e := by
  constructor
  · rintro ⟨z, held, value⟩
    have exponent : z.exponent = fullExponent m e :=
      congrArg Decimal.exponent (eq_of_toRat_eq_round held.canonical nonzero value)
    exact saturate_of_mem (exponent ▸ held.least) (exponent ▸ held.greatest)
  · intro unlimited
    obtain ⟨least, greatest⟩ := saturate_bounds (fullExponent m e)
    rw [unlimited] at least greatest
    have form : Canonical ⟨(ofParts m e).mantissa, fullExponent m e⟩ :=
      canonical_withExponent (canonical_ofParts m e) (mantissa_ofParts_ne_zero nonzero) _
    exact ⟨_, ⟨form, least, greatest⟩, mantissa_mul_ofParts nonzero⟩

/-- If the rounded value of some parts can be held at all, it is their decimal. -/
theorem ofParts_eq_of_toRat_eq {z : Decimal} (held : z.Held)
    (value : z.toRat = roundSignificant (m * 10 ^ e)) : ofParts m e = z := by
  by_cases zero : m = 0
  · rw [zero, Int.cast_zero, zero_mul, roundSignificant_zero] at value
    rw [zero, ofParts_zero]
    exact (eq_of_toRat_eq held.canonical canonical_zero (value.trans toRat_zero.symm)).symm
  · have full := eq_of_toRat_eq_round held.canonical zero value
    have unlimited := (representable_iff zero).1 ⟨z, held, value⟩
    rw [full]
    exact Decimal.ext rfl ((exponent_ofParts zero).trans unlimited)

end Decimal

end ScientificCalculator
