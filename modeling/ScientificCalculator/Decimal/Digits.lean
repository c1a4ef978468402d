import ScientificCalculator.Decimal.Scale

/-!
Decimal digits of natural numbers: their count, the zeros that end them and the value of a digit
list. The count is the length of the usual decimal text, and removing the final zeros of a positive
number leaves one that ten does not divide.
-/

namespace ScientificCalculator

/-- Long numbers are shortened by thirty-two digits at a time. -/
def digitCount (n : Nat) : Nat :=
  if n < 10 then 1
  else if n < tenTo 32 then digitCount (n / 10) + 1
  else digitCount (n / tenTo 32) + 32
termination_by n
decreasing_by
  · exact Nat.div_lt_self (by omega) (by omega)
  · exact Nat.div_lt_self (by omega) (by decide)

theorem digitCount_of_lt {n : Nat} (h : n < 10) : digitCount n = 1 := by
  rw [digitCount, if_pos h]

theorem digitCount_pos (n : Nat) : 0 < digitCount n := by
  rw [digitCount]
  split
  · decide
  · split <;> omega

theorem lt_tenTo_digitCount (n : Nat) : n < tenTo (digitCount n) := by
  fun_induction digitCount n with
  | case1 n small => exact small
  | case2 n _ _ ih =>
    rw [tenTo_succ]
    omega
  | case3 n _ _ ih =>
    rw [tenTo_add]
    exact (Nat.div_lt_iff_lt_mul (tenTo_pos 32)).1 ih

theorem tenTo_le_of_pos {n : Nat} (pos : 0 < n) : tenTo (digitCount n - 1) ≤ n := by
  fun_induction digitCount n with
  | case1 n _ => exact pos
  | case2 n large _ ih =>
    have least := ih (by omega)
    have count := digitCount_pos (n / 10)
    obtain ⟨k, hk⟩ : ∃ k, digitCount (n / 10) = k + 1 := ⟨_, (Nat.succ_pred_eq_of_pos count).symm⟩
    rw [hk, Nat.add_sub_cancel] at least
    rw [hk, Nat.add_sub_cancel, tenTo_succ]
    omega
  | case3 n _ large ih =>
    have least := ih (Nat.div_pos (Nat.le_of_not_lt large) (tenTo_pos 32))
    have count := digitCount_pos (n / tenTo 32)
    obtain ⟨k, hk⟩ : ∃ k, digitCount (n / tenTo 32) = k + 1 :=
      ⟨_, (Nat.succ_pred_eq_of_pos count).symm⟩
    rw [hk, Nat.add_sub_cancel] at least
    rw [hk, show k + 1 + 32 - 1 = k + 32 by omega, tenTo_add]
    exact Nat.le_trans (Nat.mul_le_mul_right _ least) (Nat.div_mul_le_self n _)

theorem digitCount_eq_iff {n k : Nat} (pos : 0 < n) :
    digitCount n = k + 1 ↔ tenTo k ≤ n ∧ n < tenTo (k + 1) := by
  have low := tenTo_le_of_pos pos
  have high := lt_tenTo_digitCount n
  have count := digitCount_pos n
  constructor
  · intro h
    rw [h] at low high
    exact ⟨by simpa using low, high⟩
  · rintro ⟨atLeast, below⟩
    have upper : digitCount n - 1 < k + 1 := lt_of_tenTo_lt (Nat.lt_of_le_of_lt low below)
    have lower : k < digitCount n := lt_of_tenTo_lt (Nat.lt_of_le_of_lt atLeast high)
    omega

theorem length_toDigits (n : Nat) : (Nat.toDigits 10 n).length = digitCount n := by
  apply Nat.le_antisymm
  · exact (Nat.length_toDigits_le_iff (by decide) (digitCount_pos n)).2 (lt_tenTo_digitCount n)
  · rcases Nat.eq_zero_or_pos n with rfl | pos
    · rw [digitCount_of_lt (by decide)]
      decide
    · apply Nat.le_of_not_lt
      intro short
      have nonempty : 0 < (Nat.toDigits 10 n).length := Nat.length_toDigits_pos
      have fits : (Nat.toDigits 10 n).length ≤ digitCount n - 1 := by omega
      have below := (Nat.length_toDigits_le_iff (by decide) (by omega)).1 fits
      exact Nat.not_lt.2 (tenTo_le_of_pos pos) below

/-- The number of zeros at the end of the decimal text of a positive number. -/
def trailingZeros (n : Nat) : Nat :=
  if n = 0 then 0
  else if n % 10 = 0 then trailingZeros (n / 10) + 1
  else 0
termination_by n
decreasing_by exact Nat.div_lt_self (by omega) (by omega)

theorem tenTo_trailingZeros_dvd (n : Nat) : tenTo (trailingZeros n) ∣ n := by
  fun_induction trailingZeros n with
  | case1 => decide
  | case2 n _ ends ih =>
    obtain ⟨rest, hrest⟩ := ih
    exact ⟨rest, by rw [tenTo_succ, Nat.mul_right_comm, ← hrest]; omega⟩
  | case3 n => exact Nat.one_dvd n

theorem not_ten_dvd_div_trailingZeros {n : Nat} (pos : 0 < n) :
    ¬ 10 ∣ n / tenTo (trailingZeros n) := by
  fun_induction trailingZeros n with
  | case1 => omega
  | case2 n _ _ ih =>
    have rest := ih (by omega)
    rwa [tenTo_succ, Nat.mul_comm, ← Nat.div_div_eq_div_mul]
  | case3 n _ last =>
    rw [tenTo_zero, Nat.div_one, Nat.dvd_iff_mod_eq_zero]
    exact last

def Digits (text : List Char) : Prop := ∀ c ∈ text, c.isDigit = true

instance (text : List Char) : Decidable (Digits text) :=
  List.decidableBAll (fun c : Char => c.isDigit = true) text

/-- The decimal text of a number, without a leading zero unless the number is zero. -/
def decimalDigits (n : Nat) : List Char := Nat.toDigits 10 n

/-- The number that a list of decimal digits denotes; the empty list denotes zero. -/
def digitsValue (text : List Char) : Nat := Nat.ofDigitChars 10 text 0

theorem digitsValue_decimalDigits (n : Nat) : digitsValue (decimalDigits n) = n :=
  Nat.ofDigitChars_toDigits (by decide) (by decide)

theorem digits_decimalDigits (n : Nat) : Digits (decimalDigits n) :=
  fun _ member => Nat.isDigit_of_mem_toDigits (by decide) (by decide) member

theorem length_decimalDigits (n : Nat) : (decimalDigits n).length = digitCount n :=
  length_toDigits n

end ScientificCalculator
