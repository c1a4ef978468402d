import ScientificCalculator.Proofs.Splicing.Progress

/-!
No access to the tokens is out of range, and every loop over them ends, whatever the operators do to
their operands. A program that is not the result of a calculation has come upon an operation that
does not return. An index is in range because of the tokens read before it: the lengths of the lists
that the accesses leave are those of the rounds of the loops.
-/

namespace ScientificCalculator

/-- One of the operations does not return for some operands. -/
inductive Operators.Stuck (operators : Operators) : Prop where
  | unary {u : Unary} {x : Decimal} (stuck : operators.unary u x = none)
  | trailing {f : TrailingFunction} {x : Decimal} (stuck : operators.trailing f x = none)
  | dual {o : DualOperator} {x y : Decimal} (stuck : operators.dual o x y = none)
  | multiplicative {o : Multiplicative} {x y : Decimal}
    (stuck : operators.multiplicative o x y = none)
  | additive {s : Sign} {x y : Decimal} (stuck : operators.additive s x y = none)

namespace Program

/-- A program that ends, with no access out of range, and that waits for an operation only where
`stuck` allows for one. -/
structure Sound {α : Type} (stuck : Prop) (program : Program α) : Prop where
  ends : program.run ≠ none
  inRange : program.run ≠ some (.error .outOfRange)
  returns : program.run = some (.error .stuck) → stuck

section Control
variable {α β σ ρ : Type} {stuck : Prop}

theorem sound_pure (x : α) : Sound stuck (pure x) := ⟨nofun, nofun, nofun⟩

theorem sound_calculate (result : Except Error α) : Sound stuck (calculate result) := by
  cases result with
  | error e => exact ⟨nofun, nofun, nofun⟩
  | ok x => exact sound_pure x

theorem sound_perform {result : Option (Except Error α)} (known : result = none → stuck) :
    Sound stuck (perform result) := by
  cases result with
  | none => exact ⟨nofun, nofun, fun _ => known rfl⟩
  | some result => exact sound_calculate result

theorem sound_bind {first : Program α} {next : α → Program β} (sound : Sound stuck first)
    (later : ∀ x, first = pure x → Sound stuck (next x)) : Sound stuck (first >>= next) := by
  match first with
  | none => exact absurd rfl sound.ends
  | some (.error .outOfRange) => exact absurd rfl sound.inRange
  | some (.error (.calculation _)) => exact ⟨nofun, nofun, nofun⟩
  | some (.error .stuck) => exact ⟨nofun, nofun, fun _ => sound.returns rfl⟩
  | some (.ok x) => exact later x rfl

/-- A loop ends if its rounds keep an invariant and lower a measure. -/
theorem sound_iterate {step : σ → Program (σ ⊕ ρ)} (invariant : σ → Prop) (measure : σ → Nat)
    (sound : ∀ state, invariant state → Sound stuck (step state))
    (kept : ∀ state next, invariant state → step state = pure (.inl next) → invariant next)
    (falls : EachRound step fun state next => measure next < measure state) {state : σ}
    (start : invariant state) : Sound stuck (iterate step state) := by
  induction size : measure state using Nat.strongRecOn generalizing state with
  | _ count ih =>
  subst size
  rw [iterate_eq]
  refine sound_bind (sound state start) fun result known => ?_
  cases result with
  | inl next => exact ih _ (falls _ _ known) (kept _ _ start known) rfl
  | inr result => exact sound_pure result

/-- The body may use what holds above an index, and has to leave it at the index. -/
theorem sound_descend {body : Nat → σ → Program σ} (invariant : Nat → σ → Prop) {first count : Nat}
    (sound : ∀ i state, first ≤ i → invariant (i + 1) state → Sound stuck (body i state))
    (kept : ∀ i state next, invariant (i + 1) state → body i state = pure next → invariant i next)
    {state : σ} (start : invariant (first + count) state) :
    Sound stuck (descend body first count state) := by
  induction count generalizing state with
  | zero => exact sound_pure state
  | succ count ih =>
    exact sound_bind (sound _ state (Nat.le_add_right _ _) start) fun next known =>
      ih (kept _ _ _ start known)

end Control

section Access
variable {stuck : Prop} {tokens : List Token} {i : Nat}

theorem sound_read (inside : i < tokens.length) : Sound stuck (read tokens i) := by
  rw [read, List.getElem?_eq_getElem inside]
  exact sound_pure _

theorem sound_write (inside : i < tokens.length) (token : Token) :
    Sound stuck (write tokens i token) := by
  rw [write, if_pos inside]
  exact sound_pure _

theorem sound_remove (inside : i < tokens.length) : Sound stuck (remove tokens i) := by
  rw [remove, if_pos inside]
  exact sound_pure _

theorem sound_drain {first last : Nat} (order : first ≤ last) (inside : last ≤ tokens.length) :
    Sound stuck (drain tokens first last) := by
  rw [drain, if_pos ⟨order, inside⟩]
  exact sound_pure _

theorem sound_previous (pos : 0 < i) : Sound stuck (previous i) := by
  rw [previous, if_pos pos]
  exact sound_pure _

theorem succ_of_previous {left : Nat} (known : previous i = pure left) : left + 1 = i := by
  unfold previous at known
  split at known
  · cases known
    omega
  · cases known

theorem sound_operand (tokens : List Token) (i : Nat) : Sound stuck (operand tokens i) := by
  unfold operand
  split
  · exact sound_pure _
  · exact sound_calculate _

/-- An operand that is found is in the list. -/
theorem lt_of_operand {x : Decimal} (found : operand tokens i = pure x) : i < tokens.length := by
  unfold operand at found
  split at found
  · next known => exact (List.getElem?_eq_some_iff.1 known).1
  · cases found

end Access

end Program

namespace Splice
open Program

variable {operators : Operators} {tokens : List Token} {i : Nat}

theorem sound_spliceTrailing (f : TrailingFunction) (inside : i < tokens.length) :
    Sound operators.Stuck (spliceTrailing operators f i tokens) := by
  unfold spliceTrailing
  split
  · exact sound_calculate _
  · next nonzero =>
    refine sound_bind (sound_previous (Nat.pos_of_ne_zero nonzero)) fun left place => ?_
    have place := succ_of_previous place
    refine sound_bind (sound_operand tokens left) fun x _ => ?_
    refine sound_bind (sound_perform .trailing) fun y _ => ?_
    refine sound_bind (sound_write (by omega) (.value y)) fun written write => ?_
    have kept := length_of_write write
    exact sound_remove (by omega)

theorem sound_spliceBinary {stuck : Prop}
    {apply : Decimal → Decimal → Option (Except Error Decimal)} (known : ∀ x y, apply x y = none → stuck) (pos : 0 < i) :
    Sound stuck (spliceBinary apply i tokens) := by
  refine sound_bind (sound_previous pos) fun left place => ?_
  have place := succ_of_previous place
  refine sound_bind (sound_operand tokens left) fun x _ => ?_
  refine sound_bind (sound_operand tokens (i + 1)) fun y found => ?_
  have inside := lt_of_operand found
  refine sound_bind (sound_perform (known x y)) fun z _ => ?_
  refine sound_bind (sound_write (by omega) (.value z)) fun written write => ?_
  have kept := length_of_write write
  exact sound_bind (sound_drain (by omega) (by omega)) fun _ _ => sound_pure _

theorem stuck_of_applyUnary {token : Token} {x : Decimal}
    (stuck : token.applyUnary operators x = none) : operators.Stuck := by
  cases token with
  | unary u => exact .unary stuck
  | _ => cases stuck

theorem sound_spliceUnary (inside : i < tokens.length) :
    Sound operators.Stuck (spliceUnary operators i tokens) := by
  refine sound_bind (sound_read inside) fun token _ => ?_
  refine sound_bind (sound_operand tokens (i + 1)) fun x found => ?_
  have behind := lt_of_operand found
  refine sound_bind (sound_perform stuck_of_applyUnary) fun y _ => ?_
  refine sound_bind (sound_write inside (.value y)) fun written write => ?_
  have kept := length_of_write write
  exact sound_remove (by omega)

/-- The search for the end of a run does not leave the list. -/
theorem run_in_range (inside : i ≤ tokens.length) :
    ∃ last, iterate (runStep tokens) i = pure last ∧ last ≤ tokens.length := by
  have run := iterate_run (tokens.take i) (tokens.drop i)
  rw [List.take_append_drop, List.length_take, Nat.min_eq_left inside] at run
  refine ⟨_, run, ?_⟩
  have unary := (List.takeWhile_prefix Token.isUnary (l := tokens.drop i)).length_le
  rw [List.length_drop] at unary
  omega

theorem sound_spliceDual (o : DualOperator) (inside : i < tokens.length) :
    Sound operators.Stuck (spliceDual operators o i tokens) := by
  unfold spliceDual
  split
  · exact sound_calculate _
  · next nonzero =>
    obtain ⟨last, run, bound⟩ := run_in_range (Nat.succ_le_of_lt inside)
    rw [run, pure_bind]
    -- The tokens up to the index just collapsed are still there.
    refine sound_bind (sound_descend (fun i tokens => i ≤ tokens.length)
      (fun i tokens _ inside => sound_spliceUnary inside) ?_ (by omega)) fun collapsed _ =>
        sound_spliceBinary (fun _ _ => .dual) (Nat.pos_of_ne_zero nonzero)
    intro i tokens next inside spliced
    have shorter := length_of_spliceUnary spliced
    omega

section Pass
variable {ω : Type} {margin start : Nat} {select : Token → Option ω}
  {splice : ω → Nat → List Token → Program (List Token)} {stuck : Prop}

/-- A pass comes no further than to the end of the list, and never back before its start. -/
theorem sound_pass (progress : EachRound (passStep margin select splice) Cursor.Progress)
    (sound : ∀ found i tokens, start ≤ i → i < tokens.length → Sound stuck (splice found i tokens))
    (tokens : List Token) :
    Sound stuck (iterate (passStep margin select splice) ⟨tokens, start⟩) := by
  refine sound_iterate (fun cursor => start ≤ cursor.index)
    (fun cursor => cursor.tokens.length - cursor.index) ?round ?kept ?falls (Nat.le_refl start)
  case round =>
    intro cursor reached
    unfold passStep
    split
    · next inside =>
      refine sound_bind (sound_read (by omega)) fun token _ => ?_
      split
      · exact sound_bind (sound _ _ _ reached (by omega)) fun _ _ => sound_pure _
      · exact sound_pure _
    · exact sound_pure _
  case kept =>
    intro cursor next reached goesOn
    obtain ⟨-, rfl | ⟨same, -⟩⟩ := progress _ _ goesOn
    · exact Nat.le_succ_of_le reached
    · exact same ▸ reached
  case falls =>
    intro cursor next goesOn
    obtain ⟨inside, rfl | ⟨same, shorter⟩⟩ := progress _ _ goesOn
    · show cursor.tokens.length - (cursor.index + 1) < cursor.tokens.length - cursor.index
      omega
    · omega

end Pass

theorem sound_settleUnary (inside : i < tokens.length) :
    Sound operators.Stuck (settleUnary operators i tokens) := by
  refine sound_bind (sound_read inside) fun token _ => ?_
  split
  · exact sound_spliceUnary inside
  · exact sound_pure _

theorem length_of_settleUnary {out : List Token}
    (settled : settleUnary operators i tokens = pure out) :
    tokens.length ≤ out.length + 1 := by
  obtain ⟨token, -, settled⟩ := bind_eq_pure_iff.1 settled
  split at settled
  · exact Nat.le_of_eq (length_of_spliceUnary settled).symm
  · cases settled
    exact Nat.le_succ _

/-- The sweep starts at the last token but one, and removes at most one token for each index. -/
theorem sound_sweepUnary (tokens : List Token) :
    Sound operators.Stuck (sweepUnary operators tokens) := by
  unfold sweepUnary
  split
  · exact sound_pure _
  · next long =>
    refine sound_bind (sound_previous (by omega)) fun count place => ?_
    have place := succ_of_previous place
    refine sound_descend (fun i tokens => i < tokens.length)
      (fun i tokens _ inside => sound_settleUnary (by omega)) ?_ (by omega)
    intro i tokens next inside settled
    have kept := length_of_settleUnary settled
    omega

theorem sound_reduce (operators : Operators) (tokens : List Token) :
    Sound operators.Stuck (Splice.reduce operators tokens) := by
  have progress := roundsProgress operators
  rw [Splice.reduce, iterate_exponents, pure_bind]
  refine sound_bind (sound_calculate _) fun settled _ => ?_
  rw [settleSigns_eq, pure_bind]
  refine sound_bind (sound_pass progress.trailing
    (fun f _ _ _ inside => sound_spliceTrailing f inside) _) fun trailed _ => ?_
  refine sound_bind (sound_pass progress.dual
    (fun o _ _ _ inside => sound_spliceDual o inside) _) fun bound _ => ?_
  refine sound_bind (sound_sweepUnary bound) fun led _ => ?_
  refine sound_bind (sound_pass progress.multiplicative
    (fun _ _ _ start _ => sound_spliceBinary (fun _ _ => .multiplicative) start) _)
    fun multiplied _ => ?_
  refine sound_bind (sound_pass progress.additive
    (fun _ _ _ start _ => sound_spliceBinary (fun _ _ => .additive) start) _) fun added _ => ?_
  exact sound_calculate _

theorem sound_groupStep (operators : Operators) (tokens : List Token) :
    Sound operators.Stuck (groupStep operators tokens) := by
  rcases groupStep_cases operators tokens with
    ⟨ends, -⟩ | ⟨fails, -⟩ | ⟨before, group, after, rfl, first, notOpening, notClosing⟩
  · rw [ends]
    exact sound_pure _
  · rw [fails]
    exact sound_calculate _
  · rw [groupStep_group first notOpening notClosing]
    split
    · exact sound_calculate _
    · rw [map_eq_pure_bind]
      exact sound_bind (sound_reduce operators group) fun _ _ => sound_pure _

theorem sound_evaluate (operators : Operators) (tokens : List Token) :
    Sound operators.Stuck (Splice.evaluate operators tokens) := by
  have progress := roundsProgress operators
  rw [Splice.evaluate, dropMemoryOperation_eq, pure_bind]
  split
  · exact sound_calculate _
  · split
    · exact sound_calculate _
    · refine sound_bind (sound_iterate (fun _ => True) (List.count .opening)
        (fun tokens _ => sound_groupStep operators tokens) (fun _ _ _ _ => trivial) ?_ trivial)
        fun tokens _ => sound_reduce operators tokens
      intro tokens next goesOn
      have pairs := (progress.groups _ _ goesOn).1
      omega

/-- Whatever the operators do, on any list of tokens the programs end without an access out of
range, and every round of their loops is a step toward the end. A program can wait only for an
operation that does not return. -/
theorem runs_in_range (operators : Operators) (tokens : List Token) :
    Sound operators.Stuck (Splice.reduce operators tokens) ∧
      Sound operators.Stuck (Splice.evaluate operators tokens) ∧ RoundsProgress operators :=
  ⟨sound_reduce operators tokens, sound_evaluate operators tokens, roundsProgress operators⟩

end Splice

end ScientificCalculator
