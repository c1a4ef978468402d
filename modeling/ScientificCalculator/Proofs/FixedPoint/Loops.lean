import ScientificCalculator.Proofs.FixedPoint.Checked
import ScientificCalculator.Proofs.Iteration

/-!
The kernels as loops. Each loop carries its running sum and has neither a bound on its number of
rounds nor a check that it comes closer to its end; the arctangent calls itself. All of them end,
with the numbers that the kernels return: a Taylor series for every argument and scale, since its
divisors outgrow its factor; a series of odd terms for every ratio below one; and the square roots
of a positive number with at least two digits, since a root comes closer to one as long as it is
further away than a tenth.
-/

namespace ScientificCalculator.FixedPoint

namespace Loop

/-- Adds the next term of a Taylor series to the sum, or ends where it is zero. -/
def taylorStep (scale : Nat) (factor : Int) (divisor : Nat → Nat) :
    Int × Nat × Int → Option ((Int × Nat × Int) ⊕ Int)
  | (term, n, sum) =>
    let next := nextTerm scale factor term (divisor n)
    if next = 0 then some (.inr sum) else some (.inl (next, n + 1, sum + next))

noncomputable def taylor (scale : Nat) (factor : Int) (divisor : Nat → Nat) (term : Int) (n : Nat)
    (sum : Int) : Option Int :=
  runLoop (taylorStep scale factor divisor) (term, n, sum)

noncomputable def exponential (x : Int) (digits : Nat) : Option Int := do
  let scale := tenTo digits
  let sum ← taylor scale (x.tdiv (Nat.pow 2 FixedPoint.halvings : Nat)) (fun n => n) scale 1 scale
  return squareRepeatedly scale FixedPoint.halvings sum

noncomputable def sineCosine (x : Int) (digits : Nat) : Option (Int × Int) := do
  let square := negatedSquare x digits
  let sine ← taylor (tenTo digits) square (fun n => 2 * n * (2 * n + 1)) x 1 x
  let cosine ← taylor (tenTo digits) square (fun n => (2 * n - 1) * (2 * n)) (tenTo digits) 1
    (tenTo digits)
  return (sine, cosine)

/-- Adds the next term of a series over the powers of a ratio, or ends where it is zero. -/
def oddStep (scale : Nat) (ratio : Int) : Int × Nat × Int → Option ((Int × Nat × Int) ⊕ Int)
  | (power, k, sum) =>
    let next := (power * ratio).tdiv scale
    let term := next.tdiv (2 * k + 1 : Nat)
    if term = 0 then some (.inr sum) else some (.inl (next, k + 1, sum + term))

noncomputable def odd (scale : Nat) (ratio power : Int) (k : Nat) (sum : Int) : Option Int :=
  runLoop (oddStep scale ratio) (power, k, sum)

/-- Takes a square root unless the number is near one. -/
def rootStep (digits : Nat) : Nat × Nat → Option ((Nat × Nat) ⊕ (Nat × Nat))
  | (y, taken) =>
    if NearOne digits y then some (.inr (y, taken))
    else some (.inl (squareRoot y digits, taken + 1))

noncomputable def roots (digits y taken : Nat) : Option (Nat × Nat) :=
  runLoop (rootStep digits) (y, taken)

noncomputable def halfLogarithm (y digits : Nat) : Option Int :=
  let scale := tenTo digits
  let z := (((y : Int) - scale) * scale).tdiv (y + scale)
  odd scale ((z * z).tdiv scale) z 1 z

noncomputable def logarithm (y digits : Nat) : Option Int := do
  let (near, taken) ← roots digits y 0
  let half ← halfLogarithm near digits
  return half * (Nat.pow 2 (taken + 1) : Nat)

/-- Adds or subtracts the next term of the series for `1 / q`, or ends where it is zero. -/
def alternatingStep (scale square : Int) :
    Int × Nat × Bool × Int → Option ((Int × Nat × Bool × Int) ⊕ Int)
  | (power, k, added, sum) =>
    let term := scale.tdiv (power * (2 * k + 1))
    if term = 0 then some (.inr sum)
    else some (.inl (power * square, k + 1, !added, if added then sum + term else sum - term))

noncomputable def alternating (scale square power : Int) (k : Nat) (added : Bool) (sum : Int) :
    Option Int :=
  runLoop (alternatingStep scale square) (power, k, added, sum)

noncomputable def inverseArctangent (q scale : Int) : Option Int :=
  alternating scale (q * q) q 0 true 0

noncomputable def pi (digits : Nat) : Option Int := do
  let scale := tenTo (digits + piGuard)
  let first ← inverseArctangent 5 scale
  let second ← inverseArctangent 239 scale
  return (16 * first - 4 * second).tdiv (tenTo piGuard)

/-- Halves the angle unless its tangent is at most a hundredth. -/
def halvingStep (digits : Nat) : Nat × Nat → Option ((Nat × Nat) ⊕ (Nat × Nat))
  | (x, taken) =>
    if x * 100 ≤ tenTo digits then some (.inr (x, taken))
    else some (.inl (halfAngle x digits, taken + 1))

noncomputable def halvings (digits x taken : Nat) : Option (Nat × Nat) :=
  runLoop (halvingStep digits) (x, taken)

/-- What a call of the arctangent does with the result of the call it makes. -/
inductive Call where
  | opposite
  | complement

noncomputable def Call.finish (digits : Nat) (angle : Int) : Call → Option Int
  | opposite => some (-angle)
  | complement => do
    let half ← pi digits
    return half.tdiv 2 - angle

/-- Makes another call, or ends where none is needed; the calls that wait are those given, the
latest first. -/
def callStep (digits : Nat) : Int × List Call → Option ((Int × List Call) ⊕ (Nat × List Call))
  | (x, calls) =>
    if x < 0 then some (.inl (-x, .opposite :: calls))
    else if tenTo digits < x then
      some (.inl ((tenTo digits * tenTo digits : Int).tdiv x, .complement :: calls))
    else some (.inr (x.toNat, calls))

noncomputable def calls (digits : Nat) (x : Int) (waiting : List Call) : Option (Nat × List Call) :=
  runLoop (callStep digits) (x, waiting)

noncomputable def arctangent (x : Int) (digits : Nat) : Option Int := do
  let (inner, waiting) ← calls digits x []
  let (small, taken) ← halvings digits inner 0
  let sum ← odd (tenTo digits) (-(small * small / tenTo digits : Nat)) small 1 small
  waiting.foldlM (Call.finish digits) (sum * (Nat.pow 2 taken : Nat))

section Series
variable {scale : Nat} {factor : Int} {divisor : Nat → Nat} {ratio : Int}

theorem taylor_eq (grows : ∀ n, n ≤ divisor n) (term : Int) (n : Nat) (sum : Int) :
    taylor scale factor divisor term n sum =
      some (sum + taylorTail scale factor divisor grows term n) := by
  fun_induction taylorTail scale factor divisor grows term n generalizing sum with
  | case1 term n next last =>
    rw [add_zero]
    exact runLoop_done (if_pos last)
  | case2 term n next more ih =>
    rw [← add_assoc, ← ih]
    exact runLoop_next (if_neg more)

theorem exponential_eq (x : Int) (digits : Nat) :
    exponential x digits = some (FixedPoint.exponential x digits) := by
  rw [exponential, taylor_eq fun _ => Nat.le_refl _]
  rfl

theorem sineCosine_eq (x : Int) (digits : Nat) :
    sineCosine x digits = some (sine x digits, cosine x digits) := by
  rw [sineCosine, taylor_eq le_two_mul_mul_succ, taylor_eq le_two_mul_mul]
  rfl

/-- The powers of a ratio below one shrink, so the loop needs no check that they do. -/
theorem odd_eq (small : ratio.natAbs < scale) (power : Int) (k : Nat) (sum : Int) :
    odd scale ratio power k sum = some (sum + oddTail scale ratio power k) := by
  fun_induction oddTail scale ratio power k generalizing sum with
  | case1 power k next term last =>
    rw [add_zero]
    exact runLoop_done (if_pos last)
  | case2 power k next term more shrinks ih =>
    rw [← add_assoc, ← ih]
    exact runLoop_next (if_neg more)
  | case3 power k next term more stuck =>
    have nonzero : power ≠ 0 := by
      rintro rfl
      simp [term, next] at more
    exact absurd (natAbs_power_lt small nonzero) stuck

end Series

section Logarithm
variable {digits y : Nat}

/-- A root lies between its radicand and one, and with two digits it moves as long as the radicand
is further than a tenth from one. -/
theorem squareRoot_closer (pos : 0 < y) (several : 2 ≤ digits) (far : ¬ NearOne digits y) :
    0 < squareRoot y digits ∧
      distanceFromOne digits (squareRoot y digits) < distanceFromOne digits y := by
  have hundred : 100 ≤ tenTo digits := tenTo_le_tenTo several
  unfold NearOne at far
  rcases Nat.lt_or_ge (tenTo digits) y with above | below
  · have low := le_squareRoot above.le
    have high := squareRoot_lt above
    unfold distanceFromOne at *
    omega
  · have apart : y + 3 ≤ tenTo digits := by
      unfold distanceFromOne at far
      omega
    have low : y + 1 ≤ squareRoot y digits := by
      refine Nat.le_sqrt.2 (le_trans ?_ (Nat.mul_le_mul_left y apart))
      linarith
    have high : squareRoot y digits ≤ tenTo digits :=
      (Nat.sqrt_le_sqrt (Nat.mul_le_mul_right _ below)).trans (Nat.sqrt_eq _).le
    unfold distanceFromOne
    omega

theorem roots_eq (pos : 0 < y) (several : 2 ≤ digits) (taken : Nat) :
    roots digits y taken = some (rootsUntilNear digits y taken) ∧
      NearOne digits (rootsUntilNear digits y taken).1 := by
  fun_induction rootsUntilNear digits y taken with
  | case1 y taken near => exact ⟨runLoop_done (if_pos near), near⟩
  | case2 y taken far closer ih =>
    obtain ⟨found, near⟩ := ih (squareRoot_closer pos several far).1
    rw [← found]
    exact ⟨runLoop_next (if_neg far), near⟩
  | case3 y taken far stuck => exact absurd (squareRoot_closer pos several far).2 stuck

/-- With one digit the truncated root of eight tenths is eight tenths, and the loop does not end. -/
theorem roots_stands_still (taken : Nat) : roots 1 8 taken = none := by
  have root : squareRoot 8 1 = 8 := Nat.sqrt_add_eq 8 (by decide : 16 ≤ 8 + 8)
  have still (taken : Nat) : rootStep 1 (8, taken) = some (.inl (8, taken + 1)) := by
    rw [rootStep, if_neg (by decide), root]
  have never (rounds taken : Nat) : runWithin (rootStep 1) rounds (8, taken) = none := by
    induction rounds generalizing taken with
    | zero => rfl
    | succ rounds ih =>
      rw [runWithin, still]
      exact ih (taken + 1)
  refine Option.eq_none_iff_forall_ne_some.2 fun result ended => ?_
  obtain ⟨rounds, ended⟩ := runLoop_eq_some_iff.1 ended
  rw [never rounds taken] at ended
  cases ended

theorem logarithm_eq (pos : 0 < y) (several : 2 ≤ digits) :
    logarithm y digits = some (FixedPoint.logarithm y digits) := by
  obtain ⟨found, near⟩ := roots_eq pos several 0
  have half : halfLogarithm (rootsUntilNear digits y 0).1 digits =
      some (FixedPoint.halfLogarithm (rootsUntilNear digits y 0).1 digits) :=
    odd_eq (natAbs_centered_ratio_lt near rfl) _ _ _
  rw [logarithm, found]
  show (halfLogarithm _ _).bind _ = _
  rw [half]
  rfl

end Logarithm

section Arctangent
variable {digits : Nat}

/-- Dividing toward zero divides the magnitude. -/
theorem tdiv_natCast_eq (n : Int) (d : Nat) : n.tdiv d = n.sign * (n.natAbs / d : Nat) := by
  rcases lt_trichotomy n 0 with negative | rfl | positive
  · rw [Int.sign_eq_neg_one_of_neg negative, neg_one_mul, Int.natCast_ediv,
      Int.ofNat_natAbs_of_nonpos negative.le, ← Int.tdiv_eq_ediv_of_nonneg (by omega), Int.neg_tdiv,
      neg_neg]
  · simp
  · rw [Int.sign_eq_one_of_pos positive, one_mul, Int.natCast_ediv,
      Int.natAbs_of_nonneg positive.le, Int.tdiv_eq_ediv_of_nonneg positive.le]

/-- The terms have the sign of the scale, and are counted with alternating signs. -/
theorem alternating_eq (square power : Nat) (scale : Int) (k : Nat) (added : Bool) (sum : Int) :
    alternating scale square power k added sum =
      some (sum + (if added then 1 else -1) *
        (scale.sign * inverseArctangentFrom square scale.natAbs power k)) := by
  have term_eq (power k : Nat) : scale.tdiv (power * (2 * k + 1)) =
      scale.sign * (scale.natAbs / (power * (2 * k + 1)) : Nat) := by
    exact_mod_cast tdiv_natCast_eq scale (power * (2 * k + 1))
  fun_induction inverseArctangentFrom square scale.natAbs power k generalizing added sum with
  | case1 power k term last =>
    have none : scale.tdiv (power * (2 * k + 1)) = 0 := by
      rw [term_eq, show scale.natAbs / (power * (2 * k + 1)) = 0 from last, Nat.cast_zero, mul_zero]
    rw [mul_zero, mul_zero, add_zero]
    exact runLoop_done (if_pos none)
  | case2 power k term more ih =>
    have signed : scale.sign ≠ 0 := by
      intro zero
      rw [Int.sign_eq_zero_iff_zero] at zero
      simp [term, zero] at more
    have next : scale.tdiv (power * (2 * k + 1)) = scale.sign * term := term_eq power k
    have goesOn : alternating scale square power k added sum =
        alternating scale square (power * square : Nat) (k + 1) (!added)
          (if added then sum + scale.sign * term else sum - scale.sign * term) := by
      rw [← next, Nat.cast_mul]
      exact runLoop_next (if_neg (next ▸ mul_ne_zero signed (Nat.cast_ne_zero.2 more)))
    rw [goesOn, ih]
    cases added
    · simp only [Bool.not_false, Bool.false_eq_true, if_true, if_false]
      congr 1
      ring
    · simp only [Bool.not_true, Bool.false_eq_true, if_true, if_false]
      congr 1
      ring

theorem inverseArctangent_eq {q : Int} (pos : 0 < q) (scale : Int) :
    inverseArctangent q scale =
      some (scale.sign * FixedPoint.inverseArctangent q.toNat scale.natAbs) := by
  obtain ⟨n, rfl⟩ := Int.eq_ofNat_of_zero_le pos.le
  have run := alternating_eq (n * n) n scale 0 true 0
  rw [Nat.cast_mul] at run
  rw [inverseArctangent, run, Int.toNat_natCast, FixedPoint.inverseArctangent, if_pos rfl, one_mul,
    zero_add]

theorem pi_eq (digits : Nat) : pi digits = some (FixedPoint.pi digits) := by
  have scale := tenTo_pos (digits + piGuard)
  have sign : Int.sign (tenTo (digits + piGuard)) = 1 := Int.sign_eq_one_of_pos (by omega)
  rw [pi, inverseArctangent_eq (by decide), inverseArctangent_eq (by decide), sign,
    Int.natAbs_natCast, one_mul, one_mul]
  rfl

theorem halvings_eq (digits x taken : Nat) :
    halvings digits x taken = some (halveAngle digits x taken) := by
  fun_induction halveAngle digits x taken with
  | case1 x taken small => exact runLoop_done (if_pos small)
  | case2 x taken large ih =>
    rw [← ih]
    exact runLoop_next (if_neg large)

/-- Below one no call is made. -/
theorem calls_of_le {x : Nat} (le : x ≤ tenTo digits) (waiting : List Call) :
    calls digits x waiting = some (x, waiting) := by
  refine runLoop_done ?_
  rw [callStep, if_neg (by omega), if_neg (by omega), Int.toNat_natCast]

/-- Above one the inverse is at most one, so there is one call. -/
theorem calls_of_lt {x : Nat} (above : tenTo digits < x) (waiting : List Call) :
    calls digits x waiting = some (tenTo digits * tenTo digits / x, .complement :: waiting) := by
  have inverse : tenTo digits * tenTo digits / x ≤ tenTo digits :=
    Nat.div_le_of_le_mul (Nat.mul_le_mul_right _ above.le)
  have called : (tenTo digits * tenTo digits : Int).tdiv x =
      (tenTo digits * tenTo digits / x : Nat) := by
    rw [Int.natCast_ediv, Nat.cast_mul, Int.tdiv_eq_ediv_of_nonneg (by positivity)]
  have goesOn : callStep digits (x, waiting) =
      some (.inl ((tenTo digits * tenTo digits / x : Nat), .complement :: waiting)) := by
    rw [callStep, if_neg (by omega), if_pos (by omega), called]
  exact (runLoop_next goesOn).trans (calls_of_le inverse _)

theorem calls_of_neg {x : Int} (negative : x < 0) :
    calls digits x [] = calls digits x.natAbs [.opposite] := by
  rw [Int.ofNat_natAbs_of_nonpos negative.le]
  exact runLoop_next (if_pos negative)

/-- Finishing the calls for a positive number gives its arctangent. -/
theorem calls_natCast (x digits : Nat) (waiting : List Call) :
    ∃ inner made, calls digits x waiting = some (inner, made ++ waiting) ∧
      made.foldlM (Call.finish digits) (unitArctangent inner digits) =
        some (positiveArctangent x digits) := by
  unfold positiveArctangent
  rcases Nat.lt_or_ge (tenTo digits) x with above | below
  · refine ⟨_, [.complement], calls_of_lt above waiting, ?_⟩
    rw [if_pos above, List.foldlM_cons, Call.finish, pi_eq]
    rfl
  · refine ⟨x, [], calls_of_le below waiting, ?_⟩
    rw [if_neg (Nat.not_lt.2 below)]
    rfl

theorem arctangent_of_calls {x : Int} {inner : Nat} {waiting : List Call}
    (reached : calls digits x [] = some (inner, waiting)) :
    arctangent x digits = waiting.foldlM (Call.finish digits) (unitArctangent inner digits) := by
  have small := (halveAngle?_spec digits inner 0).2
  rw [arctangent, reached]
  show (halvings digits inner 0).bind _ = _
  rw [halvings_eq]
  show (odd _ _ _ _ _).bind _ = _
  rw [odd_eq (natAbs_small_ratio_lt small)]
  rfl

theorem arctangent_eq (x : Int) (digits : Nat) :
    arctangent x digits = some (FixedPoint.arctangent x digits) := by
  unfold FixedPoint.arctangent
  split
  · next negative =>
    obtain ⟨inner, made, reached, finished⟩ := calls_natCast x.natAbs digits [.opposite]
    rw [← calls_of_neg negative] at reached
    rw [arctangent_of_calls reached, List.foldlM_append, finished]
    rfl
  · next natural =>
    obtain ⟨inner, made, reached, finished⟩ := calls_natCast x.natAbs digits []
    rw [Int.natAbs_of_nonneg (Int.not_lt.1 natural), List.append_nil] at reached
    rw [arctangent_of_calls reached, finished]

end Arctangent

end Loop

/-- Every loop of a kernel ends, with the number that the kernel returns. -/
theorem loops_end :
    (∀ q scale : Int, 2 ≤ q → Loop.inverseArctangent q scale =
      some (scale.sign * inverseArctangent q.toNat scale.natAbs)) ∧
    (∀ (x : Int) (digits : Nat), Loop.exponential x digits = some (exponential x digits)) ∧
    (∀ (x : Int) (digits : Nat),
      Loop.sineCosine x digits = some (sine x digits, cosine x digits)) ∧
    (∀ (x : Int) (digits : Nat), Loop.arctangent x digits = some (arctangent x digits)) ∧
    ∀ y digits : Nat, 0 < y → 2 ≤ digits → Loop.logarithm y digits = some (logarithm y digits) :=
  ⟨fun _ scale several => Loop.inverseArctangent_eq (by omega) scale, Loop.exponential_eq,
    Loop.sineCosine_eq, Loop.arctangent_eq, fun _ _ => Loop.logarithm_eq⟩

/-- A negative scale, and the least and a huge number beside one with two digits. -/
theorem loops_end_far :
    Loop.inverseArctangent 239 (-10 ^ 85) =
        some ((-10 ^ 85 : Int).sign * inverseArctangent 239 (-10 ^ 85 : Int).natAbs) ∧
      Loop.logarithm 1 2 = some (logarithm 1 2) ∧
      Loop.logarithm (10 ^ 1000) 2 = some (logarithm (10 ^ 1000) 2) := by
  obtain ⟨inverse, -, -, -, root⟩ := loops_end
  exact ⟨inverse 239 (-10 ^ 85) (by decide), root 1 2 (by decide) (by decide),
    root (10 ^ 1000) 2 (by positivity) (by decide)⟩

end ScientificCalculator.FixedPoint
