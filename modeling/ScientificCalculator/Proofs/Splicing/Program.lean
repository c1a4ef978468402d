import ScientificCalculator.Expression.Evaluation
import ScientificCalculator.Proofs.Iteration

/-!
Programs on a list of tokens that is changed in place. An access beyond the ends of the list stops a
program, and so does the error of a calculation or an operation that does not return; a loop repeats
its step without a bound, so that a program need not end at all.
-/

namespace ScientificCalculator

/-- Why a program stops: an index or a range that is not in the list, a calculation without a
result, or an operation that does not return. -/
inductive Fault where
  | outOfRange
  | calculation (error : Error)
  | stuck

/-- A program that never ends is none. -/
abbrev Program := ExceptT Fault Option

namespace Program

section Control
variable {α β σ ρ : Type}

def fail (fault : Fault) : Program α := throw fault

def calculate : Except Error α → Program α
  | .ok x => pure x
  | .error error => fail (.calculation error)

theorem calculate_bind (first : Except Error α) (rest : α → Except Error β) :
    calculate (first >>= rest) = (do
      let x ← calculate first
      calculate (rest x)) := by
  cases first with
  | error e => rfl
  | ok x => exact (pure_bind x fun x => calculate (rest x)).symm

/-- An operation on operands, none if it does not return. -/
def perform : Option (Except Error α) → Program α
  | none => fail .stuck
  | some result => calculate result

theorem bind_eq_pure_iff {first : Program α} {next : α → Program β} {y : β} :
    first >>= next = pure y ↔ ∃ x, first = pure x ∧ next x = pure y := by
  constructor
  · intro ends
    match first with
    | none => cases ends
    | some (.error fault) => cases ends
    | some (.ok x) => exact ⟨x, rfl, ends⟩
  · rintro ⟨x, rfl, ends⟩
    exact ends

/-- A round of a loop, which a fault ends as well. -/
def round (step : σ → Program (σ ⊕ ρ)) (state : σ) : Option (σ ⊕ Except Fault ρ) :=
  match step state with
  | none => none
  | some (.error fault) => some (.inr (.error fault))
  | some (.ok (.inl next)) => some (.inl next)
  | some (.ok (.inr result)) => some (.inr (.ok result))

/-- Repeats a step until it ends the loop with a result. -/
noncomputable def iterate (step : σ → Program (σ ⊕ ρ)) (state : σ) : Program ρ :=
  ExceptT.mk (runLoop (round step) state)

theorem iterate_eq (step : σ → Program (σ ⊕ ρ)) (state : σ) :
    iterate step state = (do
      match ← step state with
      | .inl next => iterate step next
      | .inr result => return result) := by
  unfold iterate
  match known : step state with
  | none => exact runLoop_none (by rw [round, known])
  | some (.error fault) => exact runLoop_done (by rw [round, known])
  | some (.ok (.inl next)) => exact runLoop_next (by rw [round, known])
  | some (.ok (.inr result)) => exact runLoop_done (by rw [round, known])

theorem iterate_next {step : σ → Program (σ ⊕ ρ)} {state next : σ}
    (goesOn : step state = pure (.inl next)) : iterate step state = iterate step next := by
  rw [iterate_eq, goesOn, pure_bind]

theorem iterate_done {step : σ → Program (σ ⊕ ρ)} {state : σ} {result : ρ}
    (ends : step state = pure (.inr result)) : iterate step state = pure result := by
  rw [iterate_eq, ends, pure_bind]

/-- Each round after which a loop goes on is a step of this kind. -/
def EachRound (step : σ → Program (σ ⊕ ρ)) (progress : σ → σ → Prop) : Prop :=
  ∀ state next, step state = pure (.inl next) → progress state next

/-- Runs a body at the indices from `first + count - 1` down to `first`. -/
def descend (body : Nat → σ → Program σ) (first : Nat) : Nat → σ → Program σ
  | 0, state => pure state
  | count + 1, state => do
    let state ← body (first + count) state
    descend body first count state

/-- The body runs last at the least index. -/
theorem descend_succ (body : Nat → σ → Program σ) (first count : Nat) (state : σ) :
    descend body first (count + 1) state = descend body (first + 1) count state >>= body first := by
  induction count generalizing state with
  | zero => simp [descend]
  | succ count ih =>
    rw [descend, descend, bind_assoc]
    have place : first + (count + 1) = first + 1 + count := by omega
    rw [place]
    exact bind_congr fun state => ih state

end Control

section Access
variable {before middle after : List Token} {token : Token} {i : Nat}

def read (tokens : List Token) (i : Nat) : Program Token :=
  match tokens[i]? with
  | some token => pure token
  | none => fail .outOfRange

def write (tokens : List Token) (i : Nat) (token : Token) : Program (List Token) :=
  if i < tokens.length then pure (tokens.set i token) else fail .outOfRange

def remove (tokens : List Token) (i : Nat) : Program (List Token) :=
  if i < tokens.length then pure (tokens.eraseIdx i) else fail .outOfRange

/-- The tokens from `first` to before `last`, and the tokens without them. -/
def drain (tokens : List Token) (first last : Nat) : Program (List Token × List Token) :=
  if first ≤ last ∧ last ≤ tokens.length then
    pure ((tokens.take last).drop first, tokens.take first ++ tokens.drop last)
  else fail .outOfRange

def takeTo (tokens : List Token) (last : Nat) : Program (List Token) :=
  if last ≤ tokens.length then pure (tokens.take last) else fail .outOfRange

def previous (i : Nat) : Program Nat := if 0 < i then pure (i - 1) else fail .outOfRange

/-- The value at an index. A missing one is an error of the expression, also beyond the end. -/
def operand (tokens : List Token) (i : Nat) : Program Decimal :=
  match tokens[i]? with
  | some (.value x) => pure x
  | _ => calculate missingOperand

theorem length_snoc (before : List Token) (token : Token) :
    (before ++ [token]).length = before.length + 1 := List.length_append

theorem read_append (place : before.length = i) :
    read (before ++ token :: after) i = pure token := by
  subst place
  simp [read]

theorem write_append (place : before.length = i) (new : Token) :
    write (before ++ token :: after) i new = pure (before ++ new :: after) := by
  subst place
  simp [write]

theorem remove_append (place : before.length = i) :
    remove (before ++ token :: after) i = pure (before ++ after) := by
  subst place
  simp [remove, List.eraseIdx_append_of_length_le]

theorem drain_append {last : Nat} (place : before.length = i) (size : i + middle.length = last) :
    drain (before ++ (middle ++ after)) i last = pure (middle, before ++ after) := by
  subst place size
  simp [drain, List.take_append, List.drop_append, List.drop_eq_nil_of_le]

theorem takeTo_append (place : before.length = i) :
    takeTo (before ++ after) i = pure before := by
  subst place
  simp [takeTo]

theorem previous_succ (i : Nat) : previous (i + 1) = pure i := rfl

theorem operand_append (place : before.length = i) (x : Decimal) :
    operand (before ++ .value x :: after) i = pure x := by
  subst place
  simp [operand]

theorem operand_missing {tokens : List Token} (place : before.length = i)
    (missing : ∀ x, tokens.head? ≠ some (.value x)) :
    operand (before ++ tokens) i = calculate missingOperand := by
  subst place
  unfold operand
  split
  · rename_i x found
    rw [List.getElem?_append_right (Nat.le_refl _), Nat.sub_self, ← List.head?_eq_getElem?] at found
    exact absurd found (missing x)
  · rfl

theorem operand_missing_cons (place : before.length = i) (other : ∀ x, token ≠ .value x) :
    operand (before ++ token :: after) i = calculate missingOperand :=
  operand_missing place fun x (head : some token = some (.value x)) =>
    other x (Option.some.inj head)

end Access

end Program

end ScientificCalculator
