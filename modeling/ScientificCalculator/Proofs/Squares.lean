import ScientificCalculator.Proofs.Chaining
import ScientificCalculator.Proofs.Decimal.Figures
import ScientificCalculator.Proofs.Grammar.Acceptance
import ScientificCalculator.Proofs.Grammar.Steps

/-!
The growth of products. A product is not held against the bound of the orders: its order is at least
the sum of the orders of its factors, up to the greatest exponent, where it stops. So an answer that
is squared again and again passes the bound without an error.
-/

namespace ScientificCalculator

namespace Decimal
variable {x y : Decimal}

/-- Rounded parts keep their first place, up to the greatest exponent. -/
theorem le_leadingOrder_ofParts {m e : Int} (nonzero : m ≠ 0) (least : leastExponent ≤ e) :
    min ((digitCount m.natAbs : Int) - 1 + e) greatestExponent ≤ (ofParts m e).leadingOrder := by
  have kept : firstPlace ⟨m, e⟩ ≤ (rounded ⟨m, e⟩ precision).firstPlace :=
    firstPlace_le_rounded nonzero (by decide)
  have place : (rounded ⟨m, e⟩ precision).firstPlace =
      (digitCount (ofParts m e).mantissa.natAbs : Int) - 1 + fullExponent m e := by
    rw [natAbs_mantissa_ofParts e nonzero]
    rfl
  have digits := digitCount_pos (ofParts m e).mantissa.natAbs
  have lower := le_fullExponent m e
  rw [place] at kept
  rw [leadingOrder, exponent_ofParts nonzero]
  unfold saturate
  show min (firstPlace ⟨m, e⟩) greatestExponent ≤ _
  omega

theorem digitCount_mul (m n : Nat) (pos : 0 < m) (pos' : 0 < n) :
    digitCount m + digitCount n ≤ digitCount (m * n) + 1 := by
  have least := Nat.mul_le_mul (tenTo_le_of_pos pos) (tenTo_le_of_pos pos')
  rw [← tenTo_add] at least
  have short := lt_of_tenTo_lt (Nat.lt_of_le_of_lt least (lt_tenTo_digitCount (m * n)))
  omega

/-- The order of a product is at least the sum of the orders, up to the greatest exponent. -/
theorem le_leadingOrder_mul (first : x.Held) (second : y.Held) (nonzero : x.mantissa ≠ 0)
    (nonzero' : y.mantissa ≠ 0) (unlimited : leastExponent ≤ x.exponent + y.exponent) :
    min (x.leadingOrder + y.leadingOrder) greatestExponent ≤ (x * y).leadingOrder := by
  have bounds := saturate_bounds (x.exponent + y.exponent)
  have kept := le_leadingOrder_ofParts (mul_ne_zero nonzero nonzero') bounds.1
  have digits := digitCount_mul _ _ (Int.natAbs_pos.2 nonzero) (Int.natAbs_pos.2 nonzero')
  have several := digitCount_pos (x.mantissa.natAbs * y.mantissa.natAbs)
  have left := leadingOrder_le first
  have right := leadingOrder_le second
  refine le_trans ?_ kept
  rw [Int.natAbs_mul]
  unfold firstPlace at left right
  unfold saturate
  omega

/-- A number of at least one. -/
structure FromOne (x : Decimal) : Prop where
  held : x.Held
  nonzero : x.mantissa ≠ 0
  natural : 0 ≤ x.leadingOrder

/-- Squaring doubles the order, up to the greatest exponent. -/
theorem FromOne.square (large : x.FromOne) :
    (x * x).FromOne ∧ min (2 * x.leadingOrder) greatestExponent ≤ (x * x).leadingOrder := by
  have digits : digitCount x.mantissa.natAbs ≤ 60 := digitCount_of_canonical large.held.canonical
  have place := large.natural.trans (leadingOrder_le large.held)
  have unlimited : leastExponent ≤ x.exponent + x.exponent := by
    have least : leastExponent ≤ -120 := by decide
    rw [firstPlace] at place
    omega
  have doubled :=
    le_leadingOrder_mul large.held large.held large.nonzero large.nonzero unlimited
  have natural := large.natural
  have cap : 0 ≤ greatestExponent := by decide
  rw [← two_mul] at doubled
  exact ⟨⟨held_ofParts _ _, mantissa_ofParts_ne_zero (mul_ne_zero large.nonzero large.nonzero),
    by omega⟩, doubled⟩

end Decimal

section Squares
open Decimal Reduction Grammar
variable {unit : AngleUnit} {x : Decimal}

/-- Squares that follow a value are all applied, and double its order each time. -/
theorem applyTrailing_squares (n : Nat) (large : x.FromOne) :
    ∃ y : Decimal, applyTrailing (some (.value x)) (List.replicate n (.trailing .square)) =
        .ok [.value y] ∧
      y.FromOne ∧ min (2 ^ n * x.leadingOrder) greatestExponent ≤ y.leadingOrder := by
  induction n generalizing x with
  | zero => exact ⟨x, rfl, large, by omega⟩
  | succ n ih =>
    obtain ⟨next, doubled⟩ := large.square
    obtain ⟨y, applied, result, grown⟩ := ih next
    refine ⟨y, applied, result, le_trans ?_ grown⟩
    -- either the first square doubles the order, or it has reached the greatest exponent already
    have power : (1 : Int) ≤ 2 ^ n := one_le_pow₀ (by decide)
    have natural := large.natural
    rw [pow_succ, mul_assoc]
    rcases le_total (2 * x.leadingOrder) greatestExponent with within | beyond
    · rw [min_eq_left within] at doubled
      exact min_le_min_right _ (mul_le_mul_of_nonneg_left doubled (by omega))
    · rw [min_eq_right beyond] at doubled
      have further := le_mul_of_one_le_left next.natural power
      omega

theorem readSigns_of_unsigned {tokens : List Token}
    (unsigned : ∀ token ∈ tokens, token.isAdditive = false) (afterOperand : Bool) :
    readSigns afterOperand tokens = tokens := by
  induction tokens generalizing afterOperand with
  | nil => rfl
  | cons token rest ih =>
    have later := ih fun other member => unsigned other (List.mem_cons_of_mem _ member)
    have first := unsigned token List.mem_cons_self
    cases token with
    | additive s => cases first
    | _ => exact congrArg _ (later _)

/-- What holds of the first token and of the square holds of an operand and its squares. -/
theorem forall_mem_squares {property : Token → Prop} {first : Token} (n : Nat)
    (known : property first) (known' : property (.trailing .square)) :
    ∀ token ∈ first :: List.replicate n (.trailing .square), property token :=
  List.forall_mem_cons.2 ⟨known, List.forall_mem_replicate.2 (.inr known')⟩

theorem reduce_squares (unit : AngleUnit) (n : Nat) (large : x.FromOne) :
    ∃ y : Decimal, reduce unit (.constant (.answer x) :: List.replicate n (.trailing .square)) =
        .ok y ∧ y.FromOne ∧ min (2 ^ n * x.leadingOrder) greatestExponent ≤ y.leadingOrder := by
  obtain ⟨y, applied, result, grown⟩ := applyTrailing_squares n large
  refine ⟨y, ?_, result, grown⟩
  have unmarked : ∀ token ∈ Token.constant (.answer x) :: List.replicate n (.trailing .square),
      token.isMark = false := forall_mem_squares n rfl rfl
  have unsigned : ∀ token ∈ Token.value x :: List.replicate n (.trailing .square),
      token.isAdditive = false := forall_mem_squares n rfl rfl
  have settled : (Token.constant (.answer x) :: List.replicate n (.trailing .square)).map
      Token.settle = .value x :: List.replicate n (.trailing .square) := by
    rw [List.map_cons, List.map_replicate]
    rfl
  have trailed : applyTrailing none (.value x :: List.replicate n (.trailing .square)) =
      .ok [.value y] := by
    have plain : NotTrailing (.value x) := nofun
    rw [carries_applyTrailing.start plain, applied]
  have bound : applyDuals unit none [.value y] = .ok [.value y] := by
    have plain : NotDual (.value y) := nofun
    rw [carries_applyDuals.start plain, carries_applyDuals.nil]
    rfl
  rw [reduce, foldExponents_of_unmarked unmarked, readNumerals_of_unmarked unmarked, settled]
  show (applyTrailing none (readSigns false _) >>= _) = _
  rw [readSigns_of_unsigned unsigned, trailed]
  show (applyDuals unit none [.value y] >>= _) = _
  rw [bound]
  rfl

/-- Without parentheses and memory operations, an expression is reduced as it stands. -/
theorem evaluate_of_plain {tokens : List Token}
    (plain : ∀ token ∈ tokens, token ≠ .opening ∧ token ≠ .closing)
    (without : ∀ token ∈ tokens, token.isMemory = false) :
    evaluate unit tokens = reduce unit tokens := by
  have noOpening : tokens.count .opening = 0 :=
    List.count_eq_zero.2 fun member => (plain _ member).1 rfl
  have noClosing : tokens.count .closing = 0 :=
    List.count_eq_zero.2 fun member => (plain _ member).2 rfl
  have unmixed : tokens.any Token.isMemory = false := by simpa using without
  simp only [evaluate, splitMemoryOperation_of_plain without, unmixed, noOpening, noClosing,
    evaluateGroups_of_plain plain, ne_eq, not_true_eq_false, Bool.false_eq_true, if_false]

theorem assemble_squares (registers : Registers) (n : Nat) :
    assemble registers ("ANS" :: List.replicate n "2") =
      .constant (.answer registers.answer) :: List.replicate n (.trailing .square) := by
  have answer : Token.ofIdentifier? registers "ANS" = some (.constant (.answer registers.answer)) :=
    Token.ofIdentifier?_identifier .answer
  have square : Token.ofIdentifier? registers "2" = some (.trailing .square) :=
    Token.ofIdentifier?_identifier (.trailing .square)
  rw [assemble, List.filterMap_cons_some answer, List.filterMap_replicate_of_some square]

/-- An answer of at least one is squared any number of times without an error, and each square
doubles its order, up to the greatest exponent. -/
theorem evaluate_squares (registers : Registers) (held : registers.answer.Held)
    (nonzero : registers.answer.mantissa ≠ 0) (natural : 0 ≤ registers.answer.order)
    (unit : AngleUnit) (n : Nat) :
    ∃ y : Decimal, evaluate unit (assemble registers ("ANS" :: List.replicate n "2")) = .ok y ∧
      min (2 ^ n * registers.answer.order) greatestExponent ≤ y.order := by
  rw [order_eq nonzero] at natural ⊢
  obtain ⟨y, reduced, result, grown⟩ := reduce_squares unit n ⟨held, nonzero, natural⟩
  refine ⟨y, ?_, by rwa [order_eq result.nonzero]⟩
  have plain : ∀ token ∈ Token.constant (.answer registers.answer) ::
      List.replicate n (.trailing .square), token ≠ .opening ∧ token ≠ .closing :=
    forall_mem_squares n ⟨nofun, nofun⟩ ⟨nofun, nofun⟩
  have without : ∀ token ∈ Token.constant (.answer registers.answer) ::
      List.replicate n (.trailing .square), token.isMemory = false := forall_mem_squares n rfl rfl
  rw [assemble_squares, evaluate_of_plain plain without, reduced]

/-- The greatest order that a typed exponent can give is passed by one square, and fourteen reach
the greatest exponent. -/
theorem evaluate_squares_of_maxOrder :
    (tenPow maxOrder).order = maxOrder ∧
      (∃ y : Decimal, evaluate .degrees (assemble ⟨zero, tenPow maxOrder⟩
        ("ANS" :: List.replicate 1 "2")) = .ok y ∧ 2 * maxOrder ≤ y.order) ∧
      ∃ y : Decimal, evaluate .degrees (assemble ⟨zero, tenPow maxOrder⟩
        ("ANS" :: List.replicate 14 "2")) = .ok y ∧ greatestExponent ≤ y.order := by
  have order : (tenPow maxOrder).order = maxOrder := by decide +kernel
  have held : (tenPow maxOrder).Held := ⟨by decide +kernel, by decide, by decide⟩
  have grown := evaluate_squares ⟨zero, tenPow maxOrder⟩ held (by decide)
    (by decide +kernel) .degrees
  have once := grown 1
  have often := grown 14
  rw [show (Registers.mk zero (tenPow maxOrder)).answer.order = maxOrder from order] at once often
  have passed : min (2 ^ 1 * (maxOrder : Int)) greatestExponent = 2 * maxOrder := by decide
  have reached : min (2 ^ 14 * (maxOrder : Int)) greatestExponent = greatestExponent := by decide
  rw [passed] at once
  rw [reached] at often
  exact ⟨order, once, often⟩

/-- The square of a typed number may lie beyond the bound of the orders. -/
theorem evaluate_square_beyond_maxOrder :
    ∃ y : Decimal, evaluate .degrees (assemble ⟨zero, zero⟩
        (["#1", "#e", "#1"] ++ List.replicate 15 "#0" ++ ["2"])) = .ok y ∧
      ¬ (y.IsZero ∨ |y.order| ≤ maxOrder) :=
  ⟨⟨1, 2000000000000000⟩, by with_unfolding_all rfl, by decide +kernel⟩

end Squares

end ScientificCalculator
