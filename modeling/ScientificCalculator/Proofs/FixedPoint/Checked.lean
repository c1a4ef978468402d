import ScientificCalculator.FixedPoint.Exponential
import ScientificCalculator.Proofs.FixedPoint.Arctangent
import ScientificCalculator.Proofs.FixedPoint.Logarithm
import ScientificCalculator.Proofs.FixedPoint.SineCosine

/-!
The kernels with a check of everything they rely on. A checked kernel fails where the plain one
would divide by zero, or where one of its loops comes no closer to its end; otherwise both return the
same number. Not checked are divisors that are positive by their form, as powers of ten are, and
roots of numbers that are natural by their type. A kernel that is called as it is meant to be passes
all its checks.
-/

namespace ScientificCalculator

section Option
variable {α β : Type}

/-- A step that succeeds hands its value on. -/
theorem bind_of_eq_some {o : Option α} {a : α} (found : o = some a) (rest : α → Option β) :
    (o >>= rest) = rest a := by
  rw [found]
  rfl

/-- A check that holds changes nothing. -/
theorem guard_bind {p : Prop} [Decidable p] (holds : p) (rest : Unit → Option α) :
    (guard p >>= rest) = rest () := by
  rw [guard, if_pos holds]
  rfl

end Option

namespace FixedPoint

section Taylor
variable {scale : Nat} {factor : Int} {divisor : Nat → Nat} {grows : ∀ n, n ≤ divisor n}

def taylorTail? (scale : Nat) (factor : Int) (divisor : Nat → Nat) (grows : ∀ n, n ≤ divisor n)
    (term : Int) (n : Nat) : Option Int :=
  if scale = 0 ∨ divisor n = 0 then none
  else
    let next := nextTerm scale factor term (divisor n)
    if next = 0 then some 0
    else (taylorTail? scale factor divisor grows next (n + 1)).map (next + ·)
termination_by (factor.natAbs / scale + 1 - n, term.natAbs)
decreasing_by
  rename_i nonzero
  by_cases early : n ≤ factor.natAbs / scale
  · exact Prod.Lex.left _ _ (by omega)
  · have same : factor.natAbs / scale + 1 - (n + 1) = factor.natAbs / scale + 1 - n := by omega
    rw [same]
    exact Prod.Lex.right _ (natAbs_nextTerm_lt (Nat.lt_of_lt_of_le (by omega) (grows n)) nonzero)

/-- The divisors of a Taylor series grow with the term, so from the first one on none is zero. -/
theorem taylorTail?_eq (pos : 0 < scale) (term : Int) {n : Nat} (counts : 0 < n) :
    taylorTail? scale factor divisor grows term n =
      some (taylorTail scale factor divisor grows term n) := by
  fun_induction taylorTail? scale factor divisor grows term n with
  | case1 term n zero =>
    have least := grows n
    omega
  | case2 term n sound next last => rw [taylorTail, if_pos last]
  | case3 term n sound next more ih =>
    have plain : taylorTail scale factor divisor grows term n =
        next + taylorTail scale factor divisor grows next (n + 1) := by
      rw [taylorTail]
      exact if_neg more
    rw [ih (by omega), plain, Option.map_some]

def exponential? (x : Int) (digits : Nat) : Option Int := do
  let scale := tenTo digits
  let reduced := x.tdiv (Nat.pow 2 halvings : Nat)
  let tail ← taylorTail? scale reduced (fun n => n) (fun _ => Nat.le_refl _) scale 1
  return squareRepeatedly scale halvings (scale + tail)

theorem exponential?_eq (x : Int) (digits : Nat) :
    exponential? x digits = some (exponential x digits) := by
  rw [exponential?, taylorTail?_eq (tenTo_pos digits) _ one_pos]
  rfl

/-- Sine and cosine, which share the square of the angle. -/
def sineCosine? (x : Int) (digits : Nat) : Option (Int × Int) := do
  let tail ← taylorTail? (tenTo digits) (negatedSquare x digits)
    (fun n => 2 * n * (2 * n + 1)) le_two_mul_mul_succ x 1
  let tail' ← taylorTail? (tenTo digits) (negatedSquare x digits)
    (fun n => (2 * n - 1) * (2 * n)) le_two_mul_mul (tenTo digits) 1
  return (x + tail, tenTo digits + tail')

theorem sineCosine?_eq (x : Int) (digits : Nat) :
    sineCosine? x digits = some (sine x digits, cosine x digits) := by
  rw [sineCosine?, taylorTail?_eq (tenTo_pos digits) _ one_pos,
    taylorTail?_eq (tenTo_pos digits) _ one_pos]
  rfl

end Taylor

section Odd
variable {scale : Nat} {ratio power : Int}

def oddTail? (scale : Nat) (ratio power : Int) (k : Nat) : Option Int :=
  if scale = 0 then none
  else
    let next := (power * ratio).tdiv scale
    let term := next.tdiv (2 * k + 1 : Nat)
    if term = 0 then some 0
    else if next.natAbs < power.natAbs then (oddTail? scale ratio next (k + 1)).map (term + ·)
    else none
termination_by power.natAbs
decreasing_by
  rename_i shrinks
  exact shrinks

/-- The powers of a ratio below one shrink until a term is zero. -/
theorem oddTail?_eq (small : ratio.natAbs < scale) (power : Int) (k : Nat) :
    oddTail? scale ratio power k = some (oddTail scale ratio power k) := by
  fun_induction oddTail? scale ratio power k with
  | case1 power k zero => omega
  | case2 power k sound next term last => rw [oddTail, if_pos last]
  | case3 power k sound next term more shrinks ih =>
    have plain : oddTail scale ratio power k = term + oddTail scale ratio next (k + 1) := by
      rw [oddTail]
      exact (if_neg more).trans (if_pos shrinks)
    rw [ih, plain, Option.map_some]
  | case4 power k sound next term more stuck =>
    have nonzero : power ≠ 0 := by
      rintro rfl
      simp [term, next] at more
    exact absurd (natAbs_power_lt small nonzero) stuck

end Odd

section Logarithm
variable {digits y : Nat}

def rootsUntilNear? (digits y taken : Nat) : Option (Nat × Nat) :=
  if NearOne digits y then some (y, taken)
  else if distanceFromOne digits (squareRoot y digits) < distanceFromOne digits y then
    rootsUntilNear? digits (squareRoot y digits) (taken + 1)
  else none
termination_by distanceFromOne digits y

/-- The search for a number near one succeeds if the plain search ends at such a number. -/
theorem rootsUntilNear?_eq {taken : Nat} (near : NearOne digits (rootsUntilNear digits y taken).1) :
    rootsUntilNear? digits y taken = some (rootsUntilNear digits y taken) := by
  fun_induction rootsUntilNear? digits y taken with
  | case1 y taken reached => rw [rootsUntilNear, if_pos reached]
  | case2 y taken far closer ih =>
    rw [rootsUntilNear, if_neg far, if_pos closer] at near ⊢
    exact ih near
  | case3 y taken far stuck =>
    rw [rootsUntilNear, if_neg far, if_neg stuck] at near
    exact absurd near far

def halfLogarithm? (y digits : Nat) : Option Int := do
  let scale := tenTo digits
  guard ((y : Int) + scale ≠ 0)
  let z := (((y : Int) - scale) * scale).tdiv (y + scale)
  let tail ← oddTail? scale ((z * z).tdiv scale) z 1
  return z + tail

/-- Near one the ratio of the series is below a hundredth. -/
theorem natAbs_centered_ratio_lt {z : Int} (near : NearOne digits y)
    (centered : (((y : Int) - tenTo digits) * tenTo digits).tdiv (y + tenTo digits) = z) :
    ((z * z).tdiv (tenTo digits)).natAbs < tenTo digits := by
  have scale := tenTo_pos digits
  have close : ((y : Int) - tenTo digits).natAbs < tenTo digits := by
    unfold NearOne distanceFromOne at near
    omega
  have small : z.natAbs < tenTo digits := by
    rw [← centered, Int.natAbs_tdiv, Int.natAbs_mul, Int.natAbs_natCast]
    refine lt_of_le_of_lt (Nat.div_le_of_le_mul ?_) close
    rw [Nat.mul_comm]
    exact Nat.mul_le_mul_right _ (by omega)
  rw [Int.natAbs_tdiv, Int.natAbs_mul, Int.natAbs_natCast]
  exact Nat.div_lt_of_lt_mul (Nat.mul_self_lt_mul_self small)

theorem halfLogarithm?_eq (near : NearOne digits y) :
    halfLogarithm? y digits = some (halfLogarithm y digits) := by
  have scale := tenTo_pos digits
  rw [halfLogarithm?, guard_bind (by omega)]
  show (oddTail? _ _ _ _).bind _ = _
  rw [oddTail?_eq (natAbs_centered_ratio_lt near rfl)]
  rfl

def logarithm? (y digits : Nat) : Option Int := do
  let (near, taken) ← rootsUntilNear? digits y 0
  let half ← halfLogarithm? near digits
  return half * (Nat.pow 2 (taken + 1) : Nat)

theorem logarithm?_eq (least : tenTo digits ≤ y) (most : y ≤ tenTo digits * 10) :
    logarithm? y digits = some (logarithm y digits) := by
  have reach := exactLogarithm_le ((tenTo_pos digits).trans_le least) most
  obtain ⟨near, count, found, -, -, stops, -⟩ := rootsUntilNear_spec 0 least reach
  rw [logarithm?, rootsUntilNear?_eq (by rwa [found]), logarithm, found]
  show (halfLogarithm? near digits).bind _ = _
  rw [halfLogarithm?_eq stops]
  rfl

end Logarithm

section Circle

/-- A term that is not zero is one of the first. -/
theorem index_lt_of_term {scale power k : Nat} (nonzero : scale / (power * (2 * k + 1)) ≠ 0) :
    k < scale := by
  obtain ⟨divides, below⟩ := Nat.div_ne_zero_iff.1 nonzero
  have least : 2 * k + 1 ≤ power * (2 * k + 1) :=
    Nat.le_mul_of_pos_left _ (Nat.pos_of_mul_pos_right (Nat.pos_of_ne_zero divides))
  omega

def inverseArctangentFrom? (square scale power k : Nat) : Option Int :=
  if power * (2 * k + 1) = 0 then none
  else
    let term := scale / (power * (2 * k + 1))
    if term = 0 then some 0
    else (inverseArctangentFrom? square scale (power * square) (k + 1)).map (term - ·)
termination_by scale - k
decreasing_by
  rename_i nonzero
  have early := index_lt_of_term nonzero
  omega

theorem inverseArctangentFrom?_eq {square power : Nat} (square_pos : 0 < square) (pos : 0 < power)
    (scale k : Nat) : inverseArctangentFrom? square scale power k =
      some (inverseArctangentFrom square scale power k) := by
  fun_induction inverseArctangentFrom? square scale power k with
  | case1 power k zero =>
    have divides := Nat.mul_pos pos (by omega : 0 < 2 * k + 1)
    omega
  | case2 power k sound term last => rw [inverseArctangentFrom, if_pos last]
  | case3 power k sound term more ih =>
    have plain : inverseArctangentFrom square scale power k =
        term - inverseArctangentFrom square scale (power * square) (k + 1) := by
      conv_lhs => rw [inverseArctangentFrom]
      exact if_neg more
    rw [ih (Nat.mul_pos pos square_pos), plain, Option.map_some]

def pi? (digits : Nat) : Option Int := do
  let scale := tenTo (digits + piGuard)
  let first ← inverseArctangentFrom? (5 * 5) scale 5 0
  let second ← inverseArctangentFrom? (239 * 239) scale 239 0
  return (16 * first - 4 * second).tdiv (tenTo piGuard)

theorem pi?_eq (digits : Nat) : pi? digits = some (pi digits) := by
  rw [pi?, inverseArctangentFrom?_eq (by decide) (by decide),
    inverseArctangentFrom?_eq (by decide) (by decide)]
  rfl

end Circle

section Arctangent
variable {digits x : Nat}

def halveAngle? (digits x taken : Nat) : Option (Nat × Nat) :=
  if x * 100 ≤ tenTo digits then some (x, taken)
  else if tenTo digits + squareRoot (tenTo digits + x * x / tenTo digits) digits = 0 then none
  else halveAngle? digits (halfAngle x digits) (taken + 1)
termination_by x
decreasing_by
  apply halfAngle_lt
  have scale := tenTo_pos digits
  omega

/-- Halving divides by more than one, and ends at a hundredth. -/
theorem halveAngle?_spec (digits x taken : Nat) :
    halveAngle? digits x taken = some (halveAngle digits x taken) ∧
      (halveAngle digits x taken).1 * 100 ≤ tenTo digits := by
  fun_induction halveAngle? digits x taken with
  | case1 x taken small =>
    rw [halveAngle, if_pos small]
    exact ⟨rfl, small⟩
  | case2 x taken large zero =>
    have scale := tenTo_pos digits
    omega
  | case3 x taken large sound ih =>
    have plain : halveAngle digits x taken =
        halveAngle digits (halfAngle x digits) (taken + 1) := by
      conv_lhs => rw [halveAngle]
      exact if_neg large
    rwa [plain]

def smallArctangent? (x digits : Nat) : Option Int := do
  let scale := tenTo digits
  let tail ← oddTail? scale (-(x * x / scale : Nat)) x 1
  return x + tail

theorem natAbs_small_ratio_lt (small : x * 100 ≤ tenTo digits) :
    (-(x * x / tenTo digits : Nat) : Int).natAbs < tenTo digits := by
  have scale := tenTo_pos digits
  rw [Int.natAbs_neg, Int.natAbs_natCast]
  exact Nat.div_lt_of_lt_mul (Nat.mul_self_lt_mul_self (by omega))

theorem smallArctangent?_eq (small : x * 100 ≤ tenTo digits) :
    smallArctangent? x digits = some (smallArctangent x digits) := by
  rw [smallArctangent?, oddTail?_eq (natAbs_small_ratio_lt small)]
  rfl

def unitArctangent? (x digits : Nat) : Option Int := do
  let (small, taken) ← halveAngle? digits x 0
  let angle ← smallArctangent? small digits
  return angle * (Nat.pow 2 taken : Nat)

theorem unitArctangent?_eq (x digits : Nat) :
    unitArctangent? x digits = some (unitArctangent x digits) := by
  obtain ⟨halved, small⟩ := halveAngle?_spec digits x 0
  rw [unitArctangent?, halved]
  show (smallArctangent? (halveAngle digits x 0).1 digits).bind _ = _
  rw [smallArctangent?_eq small]
  rfl

def positiveArctangent? (x digits : Nat) : Option Int :=
  let scale := tenTo digits
  if scale < x then do
    guard (x ≠ 0)
    let half ← pi? digits
    let angle ← unitArctangent? (scale * scale / x) digits
    return half.tdiv 2 - angle
  else unitArctangent? x digits

theorem positiveArctangent?_eq (x digits : Nat) :
    positiveArctangent? x digits = some (positiveArctangent x digits) := by
  unfold positiveArctangent? positiveArctangent
  simp only
  split
  · rw [guard_bind (by omega), pi?_eq, unitArctangent?_eq]
    rfl
  · exact unitArctangent?_eq x digits

def arctangent? (x : Int) (digits : Nat) : Option Int :=
  if x < 0 then (positiveArctangent? x.natAbs digits).map (- ·)
  else positiveArctangent? x.natAbs digits

theorem arctangent?_eq (x : Int) (digits : Nat) :
    arctangent? x digits = some (arctangent x digits) := by
  unfold arctangent? arctangent
  rw [positiveArctangent?_eq]
  split
  · rfl
  · rfl

end Arctangent

end FixedPoint

end ScientificCalculator
