import Mathlib.Data.Nat.Factorial.Basic
import ScientificCalculator.Proofs.Decimal.Order
import ScientificCalculator.Proofs.Decimal.Quotient
import ScientificCalculator.Proofs.Function.Power

/-!
Rounding errors of repeated products. A product of two numbers that are the results of some roundings
each is the result of all of them and one more, in proportion. So a product of `n` factors has at
most `n - 1` of them, in whatever order it is taken: a square doubles the error of its base, but it
also counts for twice as many factors.
-/

namespace ScientificCalculator

/-- Half a unit of the last digit that is kept, in proportion to a number. -/
def roundingUnit : ℚ := 5 / 10 ^ 60

namespace Decimal

variable {a b x y : Decimal} {q r : ℚ} {i j n : Nat}

/-- The decimal is as close to the number as if it came from it by some roundings in a row. -/
def AfterRoundings (count : Nat) (x : Decimal) (q : ℚ) : Prop :=
  |x.toRat - q| ≤ ((1 + roundingUnit) ^ count - 1) * |q|

theorem afterRoundings_iff_within : AfterRoundings n x q ↔
    Within ((1 + roundingUnit) ^ n - 1) x.toRat q := by
  rw [AfterRoundings, Within]
  exact_mod_cast Iff.rfl

theorem afterRoundings_of_eq (value : x.toRat = q) (count : Nat) : AfterRoundings count x q := by
  have unit : (0 : ℚ) ≤ roundingUnit := by norm_num [roundingUnit]
  have power : 1 ≤ (1 + roundingUnit) ^ count := one_le_pow₀ (by linarith)
  rw [AfterRoundings, value, sub_self, abs_zero]
  exact mul_nonneg (by linarith) (abs_nonneg q)

section Product
variable (inRange : ProductInRange x y)
include inRange

theorem within_mul : Within roundingUnit (x * y).toRat (x.toRat * y.toRat) := by
  have near := abs_roundSignificant_sub_le (x.toRat * y.toRat)
  rw [← toRat_mul_of_inRange inRange] at near
  have near' := (Rat.cast_le (K := ℝ)).2 near
  push_cast at near'
  rw [Within, roundingUnit]
  push_cast
  linarith

/-- The roundings of the factors add up, and the product is rounded once more. -/
theorem AfterRoundings.mul (first : AfterRoundings i x q) (second : AfterRoundings j y r) :
    AfterRoundings (i + j + 1) (x * y) (q * r) := by
  rw [afterRoundings_iff_within] at *
  have unit : (0 : ℝ) ≤ roundingUnit := by norm_num [roundingUnit]
  have power (k : Nat) : (0 : ℝ) ≤ (1 + roundingUnit) ^ k - 1 :=
    sub_nonneg.2 (one_le_pow₀ (by linarith))
  have left := first.mul_right y.toRat
  have right := second.mul_right q
  rw [mul_comm, mul_comm (r : ℝ)] at right
  have all := (within_mul inRange).trans (left.trans right (power i)) unit
  rw [Rat.cast_mul]
  refine all.mono (le_of_eq ?_)
  ring

end Product

section Power

/-- The number stands for a power: it came from that by one rounding less than there are factors. -/
structure StandsForPower (a : Decimal) (k : Nat) (x : Decimal) : Prop where
  held : x.Held
  start : k = 0 → x = one
  near : AfterRoundings (k - 1) x (a.toRat ^ k)

theorem standsForPower_zero (a : Decimal) : StandsForPower a 0 one :=
  ⟨⟨canonical_one, by decide, by decide⟩, fun _ => rfl,
    afterRoundings_of_eq (by rw [toRat_one, pow_zero]) _⟩

theorem standsForPower_one (held : a.Held) : StandsForPower a 1 a :=
  ⟨held, nofun, afterRoundings_of_eq (pow_one _).symm _⟩

/-- Only the product with the one that the run starts from is exact. -/
theorem StandsForPower.mul (first : StandsForPower a i x) (second : StandsForPower a j y)
    (pos : 0 < j) (inRange : ProductInRange x y) : StandsForPower a (i + j) (x * y) := by
  rcases Nat.eq_zero_or_pos i with rfl | pos'
  · rwa [first.start rfl, one_mul_of_held second.held, zero_add]
  · refine ⟨held_ofParts _ _, fun none => absurd none (by omega), ?_⟩
    have all := first.near.mul inRange second.near
    rwa [← pow_add, show i - 1 + (j - 1) + 1 = i + j - 1 by omega] at all

theorem standsForPower_powerBySquaring (held : a.Held)
    (inRange : ∀ factors ∈ products one a n, ProductInRange factors.1 factors.2) :
    StandsForPower a n (powerBySquaring one a n) :=
  stands_power (StandsForPower a) (fun factors => ProductInRange factors.1 factors.2)
    (fun first second pos _ inRange => first.mul second pos inRange) (standsForPower_zero a)
    (standsForPower_one held) inRange

theorem power_near (held : a.Held) (nonzero : ¬ a.IsZero) (held' : b.Held) (value : b.toRat = n)
    (pos : 1 ≤ n) (high : n ≤ greatestExponent)
    (inRange : ∀ factors ∈ products one a n, ProductInRange factors.1 factors.2) :
    ∃ r : Decimal, (power a b = if PowerOverflows a n then overflow
        else if PowerUnderflows a n then .ok zero else .ok r) ∧
      |r.toRat - a.toRat ^ n| ≤ ((1 + roundingUnit) ^ (n - 1) - 1) * |a.toRat| ^ n := by
  refine ⟨_, power_eq_powerBySquaring nonzero held' value pos high, ?_⟩
  rw [← abs_pow]
  exact (standsForPower_powerBySquaring held inRange).near

end Power

section Factorial

theorem digitCount_mul_le (m n : Nat) : digitCount (m * n) ≤ digitCount m + digitCount n := by
  apply digitCount_le (Nat.add_pos_left (digitCount_pos m) _)
  rw [tenTo_add]
  exact Nat.mul_lt_mul'' (lt_tenTo_digitCount m) (lt_tenTo_digitCount n)

/-- A product has at most three times the digits that are kept behind its exponents. -/
theorem productInRange_of_natural (first : x.Canonical) (second : y.Canonical)
    (nonzero : x.mantissa * y.mantissa ≠ 0) (natural : 0 ≤ x.exponent + y.exponent)
    (room : x.exponent + y.exponent + 180 ≤ greatestExponent) :
    ProductInRange x y ∧ 0 ≤ (x * y).exponent ∧
      (x * y).exponent ≤ x.exponent + y.exponent + 180 := by
  have least := le_fullExponent (x.mantissa * y.mantissa) (x.exponent + y.exponent)
  have full := fullExponent_le (e := x.exponent + y.exponent) nonzero
  have digits := digitCount_mul_le x.mantissa.natAbs y.mantissa.natAbs
  have left : digitCount x.mantissa.natAbs ≤ 60 := digitCount_of_canonical first
  have right : digitCount y.mantissa.natAbs ≤ 60 := digitCount_of_canonical second
  have kept : (precision : Int) = 60 := rfl
  have low : leastExponent ≤ 0 := by decide
  rw [Int.natAbs_mul] at full
  have sum : saturate (x.exponent + y.exponent) = x.exponent + y.exponent :=
    saturate_of_mem (by omega) (by omega)
  have exponent : (x * y).exponent =
      fullExponent (x.mantissa * y.mantissa) (x.exponent + y.exponent) := by
    show (ofParts _ (saturate _)).exponent = _
    rw [exponent_ofParts nonzero, sum, saturate_of_mem (by omega) (by omega)]
  exact ⟨⟨by omega, by omega⟩, by omega, by omega⟩

/-- A natural number of at most sixty digits is held as it is. -/
theorem ofInt_of_short (pos : 0 < n) (short : digitCount n ≤ precision) :
    (ofInt n).toRat = n ∧ 0 ≤ (ofInt n).exponent ∧ (ofInt n).exponent ≤ 120 := by
  have nonzero : (n : Int) ≠ 0 := by omega
  have natural := le_fullExponent n 0
  have bounded := fullExponent_le (e := 0) nonzero
  have few : digitCount n ≤ 60 := short
  have kept : (precision : Int) = 60 := rfl
  have range : leastExponent ≤ 0 ∧ 120 ≤ greatestExponent := by decide
  rw [Int.natAbs_natCast] at bounded
  refine ⟨?_, ?_⟩
  · have exactly : (ofInt n).toRat = (n : Int) := toRat_ofInt short
    rw [exactly, Int.cast_natCast]
  · rw [ofInt, exponent_ofParts nonzero, saturate_of_mem (by omega) (by omega)]
    omega

/-- A product of the first numbers, with an exponent that stays small. -/
structure StandsForFactorial (n : Nat) (x : Decimal) : Prop where
  held : x.Held
  nonzero : x.mantissa ≠ 0
  natural : 0 ≤ x.exponent
  bounded : x.exponent ≤ 300 * n
  near : AfterRoundings (n - 1) x n.factorial

theorem StandsForFactorial.mul (pos : 1 ≤ n) (few : n < greatestFactorial)
    (first : StandsForFactorial n x) :
    StandsForFactorial (n + 1) (x * ofInt (n + 1 : Nat)) := by
  have short : digitCount (n + 1) ≤ precision :=
    digitCount_le (by decide) ((Nat.succ_le_of_lt few).trans_lt (by decide))
  obtain ⟨value, natural', bounded'⟩ := ofInt_of_short (n := n + 1) (by omega) short
  have nonzero : x.mantissa * (ofInt (n + 1 : Nat)).mantissa ≠ 0 :=
    mul_ne_zero first.nonzero (mantissa_ofParts_ne_zero (by omega))
  have natural := first.natural
  have bounded := first.bounded
  have few' : n < 100000 := few
  have high : (10 : Int) ^ 9 ≤ greatestExponent := by decide
  obtain ⟨inRange, natural'', bounded''⟩ := productInRange_of_natural first.held.canonical
    (canonical_ofInt _) nonzero (by omega) (by omega)
  refine ⟨held_ofParts _ _, mantissa_ofParts_ne_zero nonzero, natural'', by omega, ?_⟩
  have all := first.near.mul inRange (afterRoundings_of_eq value 0)
  rw [Nat.factorial_succ, Nat.cast_mul, mul_comm ((n + 1 : Nat) : ℚ)]
  rwa [show n - 1 + 0 + 1 = n + 1 - 1 by omega] at all

theorem standsForFactorial_factorialProduct (pos : 1 ≤ n) (few : n ≤ greatestFactorial) :
    StandsForFactorial n (factorialProduct n) := by
  induction n, pos using Nat.le_induction with
  | base =>
    have single : factorialProduct 1 = one := by with_unfolding_all rfl
    rw [single]
    exact ⟨⟨canonical_one, by decide, by decide⟩, by decide, by decide, by decide,
      afterRoundings_of_eq (by rw [toRat_one, Nat.factorial_one, Nat.cast_one]) _⟩
  | succ n pos ih =>
    have next : factorialProduct (n + 1) = factorialProduct n * ofInt (n + 1) := by
      rw [factorialProduct, Nat.fold_succ]
      rfl
    rw [next]
    exact (ih (by omega)).mul pos (by omega)

theorem factorial_near (held : x.Held) (value : x.toRat = n) (pos : 1 ≤ n) :
    if n ≤ greatestFactorial then
      ∃ r : Decimal, x.factorial = .ok r ∧
        |r.toRat - n.factorial| ≤ ((1 + roundingUnit) ^ (n - 1) - 1) * n.factorial
    else x.factorial = overflow := by
  have whole : x.IsInteger := isInteger_of_toRat_eq (n := n) held.canonical value
  have natural : ¬ x.IsNegative := by
    rw [IsNegative, ← toRat_neg_iff, value, not_lt]
    exact Nat.cast_nonneg n
  rw [factorial, if_neg (not_not.2 whole), if_neg natural]
  split
  · rename_i few
    have low : leastExponent ≤ (n : Int) := le_trans (by decide) (Int.natCast_nonneg n)
    have few' : (n : Int) ≤ greatestFactorial := by exact_mod_cast few
    have high : (n : Int) ≤ greatestExponent := few'.trans (by decide)
    have near := (standsForFactorial_factorialProduct pos few).near
    rw [AfterRoundings, Nat.abs_cast] at near
    refine ⟨_, ?_, near⟩
    rw [toInt64?_eq_some held (n := n) value low high]
    simp only [if_pos few', Int.toNat_natCast]
  · rename_i many
    cases read : x.toInt64? with
    | none => rfl
    | some m =>
      have same : m = n := by
        have value' := toRat_of_toInt64?_eq_some read
        rw [value] at value'
        exact_mod_cast value'.symm
      have many' : ¬ m ≤ greatestFactorial := by
        rw [same]
        exact_mod_cast many
      simp only [if_neg many']
      rfl

end Factorial

/-- A power or a factorial is at most as far from the exact one as if each of its products but the
first had been rounded up by half a unit, where no exponent stops at an end of its range. -/
theorem repeated_products_near :
    (∀ {a b : Decimal} {n : Nat}, a.Held → ¬ a.IsZero → b.Held → b.toRat = n → 1 ≤ n →
      n ≤ greatestExponent →
      (∀ factors ∈ products one a n, ProductInRange factors.1 factors.2) →
      ∃ r : Decimal, (power a b = if PowerOverflows a n then overflow
          else if PowerUnderflows a n then .ok zero else .ok r) ∧
        |r.toRat - a.toRat ^ n| ≤ ((1 + roundingUnit) ^ (n - 1) - 1) * |a.toRat| ^ n) ∧
    ∀ {x : Decimal} {n : Nat}, x.Held → x.toRat = n → 1 ≤ n →
      if n ≤ greatestFactorial then
        ∃ r : Decimal, x.factorial = .ok r ∧
          |r.toRat - n.factorial| ≤ ((1 + roundingUnit) ^ (n - 1) - 1) * n.factorial
      else x.factorial = overflow :=
  ⟨power_near, factorial_near⟩

/-- A number just above one to a power with sixty binary digits, and the greatest factorial. -/
theorem repeated_products_near_greatest :
    (∃ r : Decimal, (power ⟨10 ^ 18 + 1, -18⟩ ⟨10 ^ 18 + 1, 0⟩ =
        if PowerOverflows ⟨10 ^ 18 + 1, -18⟩ (10 ^ 18 + 1 : Nat) then overflow
        else if PowerUnderflows ⟨10 ^ 18 + 1, -18⟩ (10 ^ 18 + 1 : Nat) then .ok zero else .ok r) ∧
      |r.toRat - toRat ⟨10 ^ 18 + 1, -18⟩ ^ (10 ^ 18 + 1)| ≤
        ((1 + roundingUnit) ^ (10 ^ 18 + 1 - 1) - 1) * |toRat ⟨10 ^ 18 + 1, -18⟩| ^ (10 ^ 18 + 1)) ∧
    ∃ r : Decimal, factorial ⟨1, 5⟩ = .ok r ∧
      |r.toRat - Nat.factorial 100000| ≤
        ((1 + roundingUnit) ^ (100000 - 1) - 1) * Nat.factorial 100000 := by
  have base : Held ⟨10 ^ 18 + 1, -18⟩ := ⟨by decide +kernel, by decide, by decide⟩
  have exponent : Held ⟨10 ^ 18 + 1, 0⟩ := ⟨by decide +kernel, by decide, by decide⟩
  have inRange : ∀ factors ∈ products one ⟨10 ^ 18 + 1, -18⟩ (10 ^ 18 + 1),
      ProductInRange factors.1 factors.2 := by decide +kernel
  have value : toRat ⟨10 ^ 18 + 1, 0⟩ = (10 ^ 18 + 1 : Nat) := by norm_num [toRat]
  have held : Held ⟨1, 5⟩ := ⟨by decide +kernel, by decide, by decide⟩
  have value' : toRat ⟨1, 5⟩ = (100000 : Nat) := by norm_num [toRat]
  refine ⟨repeated_products_near.1 base (by decide) exponent value (by decide) (by decide) inRange,
    ?_⟩
  have greatest := repeated_products_near.2 held value' (by decide)
  rwa [if_pos (by decide)] at greatest

end Decimal

end ScientificCalculator
