import ScientificCalculator.Decimal.Arithmetic

/-!
The canonical form of decimals. Rounding never leaves more than sixty digits, even when it carries
into a new digit, and the form of the opposite number is the same but for its sign.
-/

namespace ScientificCalculator

theorem digitCount_le {n k : Nat} (pos : 0 < k) (below : n < tenTo k) : digitCount n ≤ k := by
  rcases Nat.eq_zero_or_pos n with rfl | nonzero
  · rw [digitCount_of_lt (by decide)]
    exact pos
  · have least : tenTo (digitCount n - 1) < tenTo k :=
      Nat.lt_of_le_of_lt (tenTo_le_of_pos nonzero) below
    have smaller := lt_of_tenTo_lt least
    omega

/-- The magnitude of a mantissa after rounding, before its final zeros are removed. -/
def roundedMagnitude (n : Nat) : Nat := roundDivNat n (tenTo (digitCount n - precision))

theorem natAbs_roundDiv {m : Int} (d : Nat) (nonzero : m ≠ 0) :
    (roundDiv m d).natAbs = roundDivNat m.natAbs d := by
  rw [roundDiv, Int.natAbs_mul, Int.natAbs_natCast, Int.natAbs_sign_of_ne_zero nonzero, Nat.one_mul]

theorem roundedMagnitude_pos {n : Nat} (pos : 0 < n) : 0 < roundedMagnitude n := by
  have least := tenTo_le_of_pos pos
  have scale_pos := tenTo_pos (digitCount n - precision)
  have scale_le : tenTo (digitCount n - precision) ≤ n := by
    apply Nat.le_trans (tenTo_le_tenTo _) least
    have digits : precision = 60 := rfl
    omega
  unfold roundedMagnitude roundDivNat
  exact Nat.div_pos (by omega) (by omega)

theorem roundedMagnitude_le (n : Nat) : roundedMagnitude n ≤ tenTo precision := by
  have below : n < tenTo (precision + (digitCount n - precision)) :=
    Nat.lt_of_lt_of_le (lt_tenTo_digitCount n) (tenTo_le_tenTo (by omega))
  rw [tenTo_add] at below
  have scale_pos := tenTo_pos (digitCount n - precision)
  unfold roundedMagnitude roundDivNat
  generalize tenTo (digitCount n - precision) = scale at below scale_pos
  apply Nat.le_of_lt_succ
  rw [Nat.div_lt_iff_lt_mul (by omega), Nat.succ_eq_add_one, Nat.add_mul, Nat.one_mul,
    Nat.mul_left_comm (tenTo precision) 2 scale]
  omega

/-- A mantissa without its final zeros. -/
def stripped (n : Nat) : Nat := n / tenTo (trailingZeros n)

theorem digitCount_stripped_le {n : Nat} (pos : 0 < n) (bound : n ≤ tenTo precision) :
    digitCount (stripped n) ≤ precision := by
  have last := not_ten_dvd_div_trailingZeros pos
  have shorter : stripped n ≤ tenTo precision := Nat.le_trans (Nat.div_le_self _ _) bound
  apply digitCount_le (by decide)
  rcases Nat.lt_or_eq_of_le shorter with below | full
  · exact below
  · have ten : 10 ∣ stripped n := by
      rw [full]
      exact ten_dvd_tenTo_succ 59
    exact absurd ten last

namespace Decimal

theorem ofParts_zero (exponent : Int) : ofParts 0 exponent = zero := if_pos rfl

theorem natAbs_mantissa_ofParts {mantissa : Int} (exponent : Int) (nonzero : mantissa ≠ 0) :
    (ofParts mantissa exponent).mantissa.natAbs = stripped (roundedMagnitude mantissa.natAbs) := by
  unfold ofParts
  rw [if_neg nonzero]
  simp only [Int.natAbs_tdiv, natAbs_roundDiv _ nonzero, Int.natAbs_natCast]
  rfl

theorem canonical_ofParts (mantissa exponent : Int) : (ofParts mantissa exponent).Canonical := by
  by_cases nonzero : mantissa = 0
  · rw [nonzero, ofParts_zero]
    decide
  · have pos := roundedMagnitude_pos (Int.natAbs_pos.2 nonzero)
    have last : ¬ 10 ∣ (ofParts mantissa exponent).mantissa.natAbs := by
      rw [natAbs_mantissa_ofParts exponent nonzero]
      exact not_ten_dvd_div_trailingZeros pos
    have digits : digitCount (ofParts mantissa exponent).mantissa.natAbs ≤ precision := by
      rw [natAbs_mantissa_ofParts exponent nonzero]
      exact digitCount_stripped_le pos (roundedMagnitude_le _)
    have remains : (ofParts mantissa exponent).mantissa ≠ 0 := by
      intro zero
      simp [zero] at last
    unfold Canonical
    rw [if_neg remains]
    exact ⟨fun ten => last (by simpa using Int.natAbs_dvd_natAbs.2 ten), digits⟩

theorem ofParts_neg (mantissa exponent : Int) :
    ofParts (-mantissa) exponent = -ofParts mantissa exponent := by
  by_cases nonzero : mantissa = 0
  · rw [nonzero]
    rfl
  · unfold ofParts
    rw [if_neg nonzero, if_neg (by omega)]
    simp only [Int.natAbs_neg, roundDiv_neg, Int.neg_tdiv]
    rfl

theorem canonical_neg {x : Decimal} (canonical : x.Canonical) : (-x).Canonical := by
  have mantissa : (-x).mantissa = -x.mantissa := rfl
  have exponent : (-x).exponent = x.exponent := rfl
  unfold Canonical at *
  rw [mantissa, exponent, Int.natAbs_neg, Int.dvd_neg]
  by_cases zero : x.mantissa = 0
  · rw [if_pos zero] at canonical
    rw [if_pos (by omega)]
    exact canonical
  · rw [if_neg zero] at canonical
    rw [if_neg (by omega)]
    exact canonical

theorem canonical_mul (x y : Decimal) : (x * y).Canonical := canonical_ofParts _ _

end Decimal

end ScientificCalculator
