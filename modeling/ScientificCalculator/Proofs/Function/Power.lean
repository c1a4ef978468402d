import Mathlib.Algebra.Ring.Int.Parity
import Mathlib.RingTheory.Int.Basic
import ScientificCalculator.Proofs.Decimal.Integer

/-!
Integer powers by repeated squaring. The product so far and the base stand for two powers of the
same number, whose exponents make up the whole exponent together with what is left of it. A power
whose digits fit is exact, since no product on the way is longer than it. The opposite base only
changes the sign of an odd power, on each of the ways to compute it.
-/

namespace ScientificCalculator.Decimal

variable {a b x y z : Decimal} {n : Int}

section Squaring

/-- The factors of the products that are taken on the way to the power. The base is squared only as
long as there is more to come. -/
def products (found base : Decimal) (n : Nat) : List (Decimal × Decimal) :=
  if n = 0 then []
  else
    (if n % 2 = 1 then [(found, base)] else []) ++ (if 2 ≤ n then [(base, base)] else []) ++
      products (if n % 2 = 1 then found * base else found) (base * base) (n / 2)
termination_by n
decreasing_by exact Nat.div_lt_self (by omega) (by decide)

theorem forall_mem_if {α : Type} {property : α → Prop} {p : Prop} [Decidable p] {x : α} :
    (∀ y ∈ if p then [x] else [], property y) ↔ (p → property x) := by
  split
  · rename_i holds
    rw [List.forall_mem_singleton]
    exact ⟨fun known _ => known, fun known => known holds⟩
  · rename_i fails
    exact ⟨fun _ holds => absurd holds fails, fun _ => nofun⟩

theorem forall_mem_products_iff {property : Decimal × Decimal → Prop} {found base : Decimal}
    {n : Nat} (pos : 0 < n) : (∀ factors ∈ products found base n, property factors) ↔
      (n % 2 = 1 → property (found, base)) ∧ (2 ≤ n → property (base, base)) ∧
        ∀ factors ∈ products (if n % 2 = 1 then found * base else found) (base * base) (n / 2),
          property factors := by
  conv_lhs => rw [products, if_neg pos.ne']
  rw [List.forall_mem_append, List.forall_mem_append, forall_mem_if, forall_mem_if, and_assoc]

theorem powerBySquaring_zero (found base : Decimal) : powerBySquaring found base 0 = found := by
  rw [powerBySquaring, if_pos rfl]

theorem powerBySquaring_of_pos {n : Nat} (pos : 0 < n) (found base : Decimal) :
    powerBySquaring found base n =
      powerBySquaring (if n % 2 = 1 then found * base else found) (base * base) (n / 2) := by
  conv_lhs => rw [powerBySquaring, if_neg pos.ne']

/-- What holds of the numbers that stand for two powers, and of their products, holds of the whole
power. -/
theorem stands_powerBySquaring {stands : Nat → Decimal → Prop} {property : Decimal × Decimal → Prop}
    {limit : Nat}
    (step : ∀ {i j : Nat} {x y : Decimal}, stands i x → stands j y → 0 < j → i + j ≤ limit →
      property (x, y) → stands (i + j) (x * y))
    {found base : Decimal} {i j n : Nat} (first : stands i found) (second : stands j base)
    (pos : 0 < j) (within : i + j * n ≤ limit)
    (all : ∀ factors ∈ products found base n, property factors) :
    stands (i + j * n) (powerBySquaring found base n) := by
  induction n using Nat.strong_induction_on generalizing found base i j with
  | _ n ih =>
    rcases Nat.eq_zero_or_pos n with rfl | more
    · rwa [powerBySquaring_zero]
    · obtain ⟨odd, several, rest⟩ := (forall_mem_products_iff more).1 all
      have halves : j * n = j * (n % 2) + (j + j) * (n / 2) := by
        conv_lhs => rw [← Nat.mod_add_div n 2]
        ring
      have next : stands (i + j * (n % 2)) (if n % 2 = 1 then found * base else found) := by
        split
        · rename_i one
          rw [one, mul_one] at halves ⊢
          exact step first second pos (by omega) (odd one)
        · rwa [show n % 2 = 0 by omega]
      rw [powerBySquaring_of_pos more]
      by_cases last : n / 2 = 0
      · -- the base need not stand for a power any more when it is squared for the last time
        rw [last, powerBySquaring_zero, halves, last]
        exact next
      · have square : (j + j) * 1 ≤ (j + j) * (n / 2) := Nat.mul_le_mul_left _ (by omega)
        have doubled := step second second pos (by omega) (several (by omega))
        rw [halves, ← add_assoc] at within ⊢
        exact ih _ (Nat.div_lt_self more (by decide)) next doubled (by omega) within rest

/-- The run from one and the base to the power. -/
theorem stands_power {a : Decimal} {n : Nat} (stands : Nat → Decimal → Prop)
    (property : Decimal × Decimal → Prop)
    (step : ∀ {i j : Nat} {x y : Decimal}, stands i x → stands j y → 0 < j → i + j ≤ n →
      property (x, y) → stands (i + j) (x * y))
    (first : stands 0 one) (second : stands 1 a)
    (all : ∀ factors ∈ products one a n, property factors) :
    stands n (powerBySquaring one a n) := by
  have run := stands_powerBySquaring step first second one_pos (by omega) all
  rwa [zero_add, one_mul] at run

end Squaring

section Exact

/-- A product whose parts are those of a number that can be held is that number. -/
theorem mul_eq_of_held (held : z.Held) (mantissa : x.mantissa * y.mantissa = z.mantissa)
    (exponent : x.exponent + y.exponent = z.exponent) : x * y = z := by
  show ofParts (x.mantissa * y.mantissa) (saturate (x.exponent + y.exponent)) = z
  rw [mantissa, exponent, saturate_of_mem held.least held.greatest]
  exact ofParts_eq_of_toRat_eq held (roundSignificant_toRat held.canonical).symm

theorem one_mul_of_held (held : x.Held) : one * x = x :=
  mul_eq_of_held held (Int.one_mul _) (Int.zero_add _)

/-- The power with all its digits. -/
def exactPower (a : Decimal) (k : Nat) : Decimal := ⟨a.mantissa ^ k, k * a.exponent⟩

theorem exactPower_zero (a : Decimal) : a.exactPower 0 = one := by
  simp [exactPower, one]

theorem exactPower_one (a : Decimal) : a.exactPower 1 = a := by
  simp [exactPower]

/-- Ten is a product of different primes, so it divides a power only with its base. -/
theorem ten_dvd_of_dvd_pow {m : Int} {k : Nat} (divides : (10 : Int) ∣ m ^ k) : (10 : Int) ∣ m := by
  have two : (2 : Int) ∣ m :=
    Int.prime_two.dvd_of_dvd_pow ((by decide : (2 : Int) ∣ 10).trans divides)
  have five : (5 : Int) ∣ m := by
    have prime : Prime (5 : Int) := Nat.prime_iff_prime_int.1 (by decide : Nat.Prime 5)
    exact prime.dvd_of_dvd_pow ((by decide : (5 : Int) ∣ 10).trans divides)
  omega

/-- A power whose digits fit, with an exponent in its range. -/
structure PowerFits (a : Decimal) (n : Nat) : Prop where
  canonical : a.Canonical
  nonzero : a.mantissa ≠ 0
  short : a.mantissa.natAbs ^ n < tenTo precision
  least : leastExponent ≤ n * a.exponent
  greatest : n * a.exponent ≤ greatestExponent

/-- The powers before one that fits can be held. -/
theorem PowerFits.held {n k : Nat} (fits : PowerFits a n) (le : k ≤ n) : (a.exactPower k).Held := by
  have low : leastExponent ≤ 0 := by decide
  have high : 0 ≤ greatestExponent := by decide
  have least := fits.least
  have greatest := fits.greatest
  have le' : (k : Int) ≤ n := by exact_mod_cast le
  have between : leastExponent ≤ k * a.exponent ∧ k * a.exponent ≤ greatestExponent := by
    rcases le_total 0 a.exponent with natural | negative
    · have grown := mul_le_mul_of_nonneg_right le' natural
      have start := mul_nonneg (Int.natCast_nonneg k) natural
      omega
    · have fallen := mul_le_mul_of_nonpos_right le' negative
      have start := mul_nonpos_of_nonneg_of_nonpos (Int.natCast_nonneg k) negative
      omega
  refine ⟨?_, between.1, between.2⟩
  have remains : a.mantissa ^ k ≠ 0 := pow_ne_zero k fits.nonzero
  unfold Canonical exactPower
  rw [if_neg remains]
  refine ⟨fun divides =>
    not_dvd_of_canonical fits.canonical fits.nonzero (ten_dvd_of_dvd_pow divides), ?_⟩
  apply digitCount_le (by decide)
  rw [Int.natAbs_pow]
  exact (Nat.pow_le_pow_right (Int.natAbs_pos.2 fits.nonzero) le).trans_lt fits.short

/-- Products of powers that fit are not rounded. -/
theorem exactPower_mul {n i j : Nat} (fits : PowerFits a n) (le : i + j ≤ n) :
    a.exactPower i * a.exactPower j = a.exactPower (i + j) := by
  apply mul_eq_of_held (fits.held le)
  · exact (pow_add a.mantissa i j).symm
  · show (i : Int) * a.exponent + j * a.exponent = (i + j : Nat) * a.exponent
    push_cast
    ring

theorem powerBySquaring_of_fits {n : Nat} (fits : PowerFits a n) :
    powerBySquaring one a n = a.exactPower n := by
  apply stands_power (fun k x => x = a.exactPower k) (fun _ => True) ?_ (exactPower_zero a).symm
    (exactPower_one a).symm fun _ _ => trivial
  rintro i j _ _ rfl rfl _ le _
  exact exactPower_mul fits le

end Exact

section Routes

theorem power_of_isInteger (nonzero : a.mantissa ≠ 0) (some_power : b.mantissa ≠ 0)
    (whole : b.IsInteger) :
    power a b = match b.toInt64? with
      | some n => integerPower a n
      | none => powerByLogarithm a b :=
  (if_neg (show ¬ b.IsZero from some_power)).trans <|
    (if_neg (show ¬ a.IsZero from nonzero)).trans <| if_neg fun fraction => fraction.2 whole

theorem power_eq_integerPower (nonzero : a.mantissa ≠ 0) (held : b.Held) (value : b.toRat = n)
    (some_power : n ≠ 0) (low : leastExponent ≤ n) (high : n ≤ greatestExponent) :
    power a b = integerPower a n := by
  have remains : b.mantissa ≠ 0 := by
    rw [Ne, ← toRat_eq_zero_iff, value]
    exact_mod_cast some_power
  rw [power_of_isInteger nonzero remains (isInteger_of_toRat_eq held.canonical value),
    toInt64?_eq_some held value low high]

/-- A power of a positive integer exponent, between the two estimates of its size. -/
theorem power_eq_powerBySquaring {n : Nat} (nonzero : a.mantissa ≠ 0) (held : b.Held)
    (value : b.toRat = n) (pos : 1 ≤ n) (high : n ≤ greatestExponent) :
    power a b = if PowerOverflows a n then overflow else if PowerUnderflows a n then .ok zero
      else .ok (powerBySquaring one a n) := by
  have low : leastExponent ≤ (n : Int) := by
    have least : leastExponent ≤ 0 := by decide
    omega
  rw [power_eq_integerPower nonzero held (n := n) value (by omega) low high, integerPower]
  simp only [if_neg (show ¬ (n : Int) < 0 by omega), Int.natAbs_natCast]

/-- A power whose digits fit is exact, unless an estimate of its size takes it for too large or too
small. -/
theorem power_exact {n : Nat} (canonical : a.Canonical) (nonzero : ¬ a.IsZero) (held : b.Held)
    (value : b.toRat = n) (pos : 1 ≤ n) (high : n ≤ greatestExponent)
    (short : |a.mantissa| ^ n < 10 ^ 60) (least : leastExponent ≤ n * a.exponent)
    (greatest : n * a.exponent ≤ greatestExponent) :
    power a b = if PowerOverflows a n then overflow else if PowerUnderflows a n then .ok zero
      else .ok ⟨a.mantissa ^ n, n * a.exponent⟩ := by
  have digits : a.mantissa.natAbs ^ n < tenTo precision := by
    rw [Int.abs_eq_natAbs] at short
    exact_mod_cast short
  rw [power_eq_powerBySquaring nonzero held value pos high,
    powerBySquaring_of_fits ⟨canonical, nonzero, digits, least, greatest⟩]
  rfl

/-- Sixty digits are filled by the power 199 of two, and the exponent almost reaches its end. -/
theorem power_exact_sixty_digits :
    power ⟨-2, -46000000000000000⟩ ⟨199, 0⟩ =
      if PowerOverflows ⟨-2, -46000000000000000⟩ (199 : Nat) then overflow
      else if PowerUnderflows ⟨-2, -46000000000000000⟩ (199 : Nat) then .ok zero
      else .ok ⟨(-2) ^ 199, (199 : Nat) * -46000000000000000⟩ := by
  have held : Held ⟨199, 0⟩ := ⟨by decide +kernel, by decide, by decide⟩
  have value : toRat ⟨199, 0⟩ = (199 : Nat) := by norm_num [toRat]
  exact power_exact (by decide +kernel) (by decide) held value (by decide) (by decide)
    (by norm_num) (by decide) (by decide)

end Routes

end ScientificCalculator.Decimal
