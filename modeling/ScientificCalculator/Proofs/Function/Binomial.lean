import Mathlib.Data.Nat.Choose.Bounds
import ScientificCalculator.Proofs.Decimal.Integer
import ScientificCalculator.Proofs.Failure

/-!
Binomial coefficients are exact. After each step the product is a binomial coefficient itself, so no
division leaves a remainder, and choosing some elements is leaving out the others. The coefficient
is rounded once, and its exponent is far from the end of the range, whatever the estimate of its
size.
-/

namespace ScientificCalculator

section Coefficient
variable {n r : Int}

/-- The product after some steps is a coefficient, of which each step takes the next one. -/
theorem binomialProduct_eq_choose (base k : Nat) :
    binomialProduct base k = (base + k).choose k := by
  induction k with
  | zero => exact (Nat.choose_zero_right _).symm
  | succ k ih =>
    have step : binomialProduct base (k + 1) =
        binomialProduct base k * (base + (k + 1)) / (k + 1) := by
      rw [binomialProduct, Nat.fold_succ]
      rfl
    rw [step, ih, mul_comm, ← add_assoc, Nat.add_one_mul_choose_eq,
      Nat.mul_div_cancel _ (Nat.succ_pos k)]

theorem dvd_binomialProduct_mul (base k : Nat) :
    k + 1 ∣ binomialProduct base k * (base + (k + 1)) := by
  rw [binomialProduct_eq_choose, mul_comm, ← add_assoc, Nat.add_one_mul_choose_eq]
  exact Nat.dvd_mul_left _ _

/-- The number of ways to choose `r` out of `n`, none for a choice that is out of range. -/
def choices (n r : Int) : Nat := if 0 ≤ r ∧ r ≤ n then n.toNat.choose r.toNat else 0

/-- The steps to the coefficient: the smaller of the elements chosen and of those left out. -/
def choiceSteps (n r : Int) : Nat := (min r (n - r)).toNat

/-- The coefficient takes too many steps or is estimated to be too long. -/
def BinomialRefused (n r : Int) : Prop :=
  (0 ≤ r ∧ r ≤ n) ∧ (greatestBinomialSteps < choiceSteps n r ∨
    choiceSteps n r ≠ 0 ∧ BinomialTooLarge n.toNat (choiceSteps n r))

instance (n r : Int) : Decidable (BinomialRefused n r) := inferInstanceAs (Decidable (_ ∧ _))

theorem choices_eq_choose (natural : 0 ≤ r) (le : r ≤ n) :
    choices n r = n.toNat.choose (choiceSteps n r) := by
  rw [choices, if_pos ⟨natural, le⟩, choiceSteps]
  rcases le_total r (n - r) with fewer | more
  · rw [min_eq_left fewer]
  · rw [min_eq_right more, show (n - r).toNat = n.toNat - r.toNat by omega,
      Nat.choose_symm (by omega)]

theorem choices_eq_binomialProduct (natural : 0 ≤ r) (le : r ≤ n) :
    choices n r = binomialProduct (n.toNat - choiceSteps n r) (choiceSteps n r) := by
  have steps : choiceSteps n r ≤ n.toNat := by
    rw [choiceSteps]
    omega
  rw [binomialProduct_eq_choose, Nat.sub_add_cancel steps, choices_eq_choose natural le]

theorem binomial_of_inside (natural : 0 ≤ r) (le : r ≤ n) : binomial n r =
    if greatestBinomialSteps < choiceSteps n r then .error (.domain .combinationsTooLarge)
    else if choiceSteps n r = 0 then .ok 1
    else if BinomialTooLarge n.toNat (choiceSteps n r) then .error (.domain .combinationsTooLarge)
    else .ok (choices n r) := by
  rw [binomial, if_neg (by omega), if_neg (by omega), choices_eq_binomialProduct natural le]
  rfl

theorem binomial_eq (natural : 0 ≤ n) (r : Int) : binomial n r =
    if BinomialRefused n r then .error (.domain .combinationsTooLarge) else .ok (choices n r) := by
  by_cases inside : 0 ≤ r ∧ r ≤ n
  · rw [binomial_of_inside inside.1 inside.2]
    by_cases many : greatestBinomialSteps < choiceSteps n r
    · rw [if_pos many, if_pos ⟨inside, .inl many⟩]
    · rw [if_neg many]
      by_cases none : choiceSteps n r = 0
      · have single : choices n r = 1 := by
          rw [choices_eq_choose inside.1 inside.2, none, Nat.choose_zero_right]
        rw [if_pos none, single, if_neg]
        rintro ⟨-, steps | ⟨some_steps, -⟩⟩
        · exact many steps
        · exact some_steps none
      · rw [if_neg none]
        by_cases large : BinomialTooLarge n.toNat (choiceSteps n r)
        · rw [if_pos large, if_pos ⟨inside, .inr ⟨none, large⟩⟩]
        · rw [if_neg large, if_neg]
          rintro ⟨-, steps | ⟨-, large'⟩⟩
          · exact many steps
          · exact large large'
  · have outside : r < 0 ∨ n < r := by omega
    rw [binomial, if_neg (not_lt.2 natural), if_pos outside, if_neg fun refused => inside refused.1,
      choices, if_neg inside]

/-- Leaving elements out is choosing the others. -/
theorem binomial_sub (n r : Int) : binomial n (n - r) = binomial n r := by
  have outside : n - r < 0 ∨ n < n - r ↔ r < 0 ∨ n < r := by omega
  have steps : min (n - r) (n - (n - r)) = min r (n - r) := by omega
  unfold binomial
  simp only [outside, steps]

/-- A coefficient has at most as many digits as all the factors of its product together. -/
theorem digitCount_choices_le {length steps : Nat} (short : n.toNat < tenTo length)
    (few : ¬ BinomialRefused n r) (limit : greatestBinomialSteps ≤ steps) :
    digitCount (choices n r) ≤ length * steps + 1 := by
  apply digitCount_le (Nat.succ_pos _)
  by_cases inside : 0 ≤ r ∧ r ≤ n
  · have fewer : choiceSteps n r ≤ steps := by
      by_contra! more
      exact few ⟨inside, .inl (limit.trans_lt more)⟩
    rw [choices_eq_choose inside.1 inside.2]
    calc n.toNat.choose (choiceSteps n r)
        ≤ n.toNat ^ choiceSteps n r := Nat.choose_le_pow _ _
      _ ≤ tenTo length ^ choiceSteps n r := Nat.pow_le_pow_left short.le _
      _ = tenTo (length * choiceSteps n r) := tenTo_pow _ _
      _ ≤ tenTo (length * steps) := tenTo_le_tenTo (Nat.mul_le_mul_left _ fewer)
      _ < tenTo (length * steps + 1) := by
        rw [tenTo_succ]
        have pos := tenTo_pos (length * steps)
        omega
  · rw [choices, if_neg inside]
    exact tenTo_pos _

end Coefficient

namespace Decimal

variable {n r : Decimal} {total chosen : Int}

theorem natAbs_lt_of_written (canonical : n.Canonical) (value : n.toRat = total)
    (written : n.exponent ≤ maxIntegerExponent) :
    total.natAbs < tenTo (precision + maxIntegerExponent) := by
  have places :
      digitCount n.mantissa.natAbs + n.exponent.toNat ≤ precision + maxIntegerExponent := by
    have digits := digitCount_of_canonical canonical
    omega
  refine lt_of_lt_of_le ?_ (tenTo_le_tenTo places)
  rw [← mantissa_mul_tenTo_eq canonical value, Int.natAbs_mul, Int.natAbs_natCast, tenTo_add]
  exact Nat.mul_lt_mul_of_pos_right (lt_tenTo_digitCount _) (tenTo_pos _)

/-- The coefficient is rounded once, and no exponent stops at the end of its range. -/
theorem toRat_ofInt_choices (canonical : n.Canonical) (value : n.toRat = total)
    (written : n.exponent ≤ maxIntegerExponent) (few : ¬ BinomialRefused total chosen) :
    (ofInt (choices total chosen)).toRat = roundSignificant (choices total chosen) := by
  have short : total.toNat < tenTo (precision + maxIntegerExponent) := by
    have magnitude := natAbs_lt_of_written canonical value written
    omega
  have digits := digitCount_choices_le short few le_rfl
  have room : ((precision + maxIntegerExponent) * greatestBinomialSteps + 1 + precision : Nat) ≤
      greatestExponent := by decide
  rw [ofInt, toRat_ofParts (by decide), zpow_zero, mul_one, Int.cast_natCast]
  rw [Int.natAbs_natCast]
  omega

section Integers
variable (canonical : n.Canonical) (canonical' : r.Canonical) (value : n.toRat = total)
  (value' : r.toRat = chosen) (natural : 0 ≤ total)
include canonical canonical' value value' natural

theorem combinations_eq : n.combinations r =
    if n.exponent ≤ maxIntegerExponent ∧ r.exponent ≤ maxIntegerExponent then
      if BinomialRefused total chosen then .error (.domain .combinationsTooLarge)
      else .ok (ofInt (choices total chosen))
    else .error (.domain .integerTooLarge) := by
  rw [combinations, wholeNumber_of_toRat_eq canonical value,
    wholeNumber_of_toRat_eq canonical' value']
  by_cases written : n.exponent ≤ maxIntegerExponent ∧ r.exponent ≤ maxIntegerExponent
  · rw [if_pos written, if_pos written.1, if_pos written.2]
    show (binomial total chosen >>= fun c => pure (ofInt c)) = _
    rw [binomial_eq natural]
    split <;> rfl
  · rw [if_neg written]
    by_cases first : n.exponent ≤ maxIntegerExponent
    · rw [if_pos first, if_neg fun second => written ⟨first, second⟩]
      rfl
    · rw [if_neg first]
      rfl

theorem combinations_eq_ok_iff {c : Decimal} : n.combinations r = .ok c ↔
    (n.exponent ≤ maxIntegerExponent ∧ r.exponent ≤ maxIntegerExponent) ∧
      ¬ BinomialRefused total chosen ∧ ofInt (choices total chosen) = c := by
  rw [combinations_eq canonical canonical' value value' natural]
  by_cases written : n.exponent ≤ maxIntegerExponent ∧ r.exponent ≤ maxIntegerExponent
  · rw [if_pos written]
    by_cases refused : BinomialRefused total chosen
    · rw [if_pos refused]
      exact ⟨nofun, fun found => absurd refused found.2.1⟩
    · rw [if_neg refused, Except.ok.injEq]
      exact ⟨fun same => ⟨written, refused, same⟩, fun found => found.2.2⟩
  · rw [if_neg written]
    exact ⟨nofun, fun found => absurd found.1 written⟩

end Integers

theorem permutations_eq_combinations (n r : Decimal) : n.permutations r = n.combinations r := by
  rw [permutations, combinations]
  simp only [binomial_sub]

/-- The numbers of combinations. A result is the binomial coefficient, zero for a choice that is out
of range, rounded once. There is one unless an argument is too long to be written out or the
computation is refused for its size. Each step of the computation divides without a remainder, and
the numbers of permutations, which count the elements left out, are the same results. -/
theorem combinations_exact (canonical : n.Canonical) (canonical' : r.Canonical)
    (value : n.toRat = total) (value' : r.toRat = chosen) (natural : 0 ≤ total) :
    (∀ c, n.combinations r = .ok c → c.Held ∧
      c.toRat = roundSignificant
        (if 0 ≤ chosen ∧ chosen ≤ total then total.toNat.choose chosen.toNat else 0 : Nat)) ∧
    ((∃ c, n.combinations r = .ok c) ↔ n.exponent ≤ maxIntegerExponent ∧
      r.exponent ≤ maxIntegerExponent ∧ ¬ BinomialRefused total chosen) ∧
    (∀ base i, i + 1 ∣ binomialProduct base i * (base + (i + 1))) ∧
    n.permutations r = n.combinations r := by
  have results {c : Decimal} :=
    combinations_eq_ok_iff (c := c) canonical canonical' value value' natural
  refine ⟨?_, ?_, dvd_binomialProduct_mul, permutations_eq_combinations n r⟩
  · intro c found
    obtain ⟨written, few, rfl⟩ := results.1 found
    exact ⟨held_ofParts _ _, toRat_ofInt_choices canonical value written.1 few⟩
  · simp only [results, exists_and_left, exists_eq', and_true, and_assoc]

/-- Two elements left out of sixty nines: a coefficient of a hundred and twenty digits, where only
the estimate of its size could refuse it. A choice of one more than there are is always zero. -/
theorem combinations_exact_sixty_nines :
    (¬ BinomialRefused (10 ^ 60 - 1) (10 ^ 60 - 3) →
      ∃ c, combinations ⟨10 ^ 60 - 1, 0⟩ ⟨10 ^ 60 - 3, 0⟩ = .ok c ∧
        c.toRat = roundSignificant (((10 ^ 60 - 1) * (10 ^ 60 - 2) / 2 : Nat))) ∧
    ∃ c, combinations ⟨10 ^ 60 - 1, 0⟩ ⟨1, 60⟩ = .ok c ∧ c.toRat = 0 := by
  have nines : Canonical ⟨10 ^ 60 - 1, 0⟩ := by decide +kernel
  have value : toRat ⟨10 ^ 60 - 1, 0⟩ = (10 ^ 60 - 1 : Int) := by
    rw [toRat, zpow_zero, mul_one]
  constructor
  · intro few
    have value' : toRat ⟨10 ^ 60 - 3, 0⟩ = (10 ^ 60 - 3 : Int) := by
      rw [toRat, zpow_zero, mul_one]
    have correct := combinations_exact nines (by decide +kernel) value value' (by decide)
    obtain ⟨c, found⟩ := correct.2.1.2 ⟨by decide, by decide, few⟩
    have coefficient (m : Nat) : (m + 2).choose m = (m + 2) * (m + 1) / 2 := by
      rw [Nat.choose_symm_add, Nat.choose_two_right]
      rfl
    have count : (10 ^ 60 - 1 : Int).toNat = 10 ^ 60 - 3 + 2 := by decide
    have count' : (10 ^ 60 - 3 : Int).toNat = 10 ^ 60 - 3 := by decide
    refine ⟨c, found, ?_⟩
    rw [(correct.1 c found).2, if_pos (by decide), count, count', coefficient]
    norm_num
  · have value' : toRat ⟨1, 60⟩ = (10 ^ 60 : Int) := by
      norm_num [toRat]
    have correct := combinations_exact nines (by decide +kernel) value value' (by decide)
    have outside : ¬ (0 ≤ (10 ^ 60 : Int) ∧ (10 ^ 60 : Int) ≤ 10 ^ 60 - 1) := by decide
    obtain ⟨c, found⟩ := correct.2.1.2 ⟨by decide, by decide, fun refused => outside refused.1⟩
    refine ⟨c, found, ?_⟩
    rw [(correct.1 c found).2, if_neg outside, Nat.cast_zero, roundSignificant_zero]

end Decimal

end ScientificCalculator
