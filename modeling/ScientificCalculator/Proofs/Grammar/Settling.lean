import ScientificCalculator.Proofs.Failure
import ScientificCalculator.Proofs.Grammar.Phrase

/-!
What a step of the reduction makes of a phrase, wherever in a list of tokens the phrase stands. A
step that settles each operand of a chain settles the chain, so for each step only the phrases that
it turns into values have to be looked at.
-/

namespace ScientificCalculator.Grammar

namespace Tree

/-- The value of a tree that has one. -/
def value (unit : AngleUnit) (tree : Tree) : Decimal :=
  match tree.eval unit with
  | .ok x => x
  | .error _ => default

def HasValue (unit : AngleUnit) (tree : Tree) : Prop := tree.eval unit = .ok (tree.value unit)

theorem value_of_eval {unit : AngleUnit} {tree : Tree} {x : Decimal}
    (evaluated : tree.eval unit = .ok x) : tree.value unit = x := by
  rw [value, evaluated]

theorem hasValue_of_eval {unit : AngleUnit} {tree : Tree} {x : Decimal}
    (evaluated : tree.eval unit = .ok x) : tree.HasValue unit := by
  rw [HasValue, value_of_eval evaluated, evaluated]

end Tree

/-- What becomes of a phrase and the tokens after it, given what becomes of the tokens alone: either
both do well and the output of the phrase comes first, or the phrase fails, or the rest does. -/
inductive Outcome (output : List Token) (good : Prop) (fails : Error → Prop)
    (later : Except Error (List Token)) : Except Error (List Token) → Prop where
  | done (well : good) {rest : List Token} (there : later = .ok rest) :
      Outcome output good fails later (.ok (output ++ rest))
  | failed {error : Error} (here : fails error) : Outcome output good fails later (.error error)
  | failedLater {error : Error} (there : later = .error error) :
      Outcome output good fails later (.error error)

/-- A step settles a phrase if it has an outcome before all tokens that start as `kept` says, and
the phrase starts so as well. -/
structure Settles (step : List Token → Except Error (List Token)) (kept : Token → Prop)
    (input output : List Token) (good : Prop) (fails : Error → Prop) : Prop where
  head : ∀ token ∈ input.head?, kept token
  outcome : ∀ rest, (∀ token ∈ rest.head?, kept token) →
    Outcome output good fails (step rest) (step (input ++ rest))

section Settles
variable {step : List Token → Except Error (List Token)} {kept : Token → Prop}

theorem kept_head_append {first second : List Token} (head : ∀ token ∈ first.head?, kept token)
    (next : ∀ token ∈ second.head?, kept token) :
    ∀ token ∈ (first ++ second).head?, kept token := by
  cases first with
  | nil => exact next
  | cons token rest => exact head

theorem Outcome.map {output : List Token} {later whole : Except Error (List Token)}
    (same : whole = (output ++ ·) <$> later) :
    Outcome output True (fun _ => False) later whole := by
  cases later with
  | error e =>
    subst same
    exact .failedLater rfl
  | ok rest =>
    subst same
    exact .done trivial rfl

theorem Outcome.mono {output : List Token} {good good' : Prop} {fails fails' : Error → Prop}
    {later whole : Except Error (List Token)} (outcome : Outcome output good fails later whole)
    (better : good → good') (worse : ∀ error, fails error → fails' error) :
    Outcome output good' fails' later whole := by
  cases outcome with
  | done well there => exact .done (better well) there
  | failed here => exact .failed (worse _ here)
  | failedLater there => exact .failedLater there

theorem Settles.nil : Settles step kept [] [] True (fun _ => False) where
  head := nofun
  outcome rest _ := .map (id_map (step rest)).symm

theorem Settles.append {input input' output output' : List Token} {good good' : Prop}
    {fails fails' : Error → Prop} (first : Settles step kept input output good fails)
    (second : Settles step kept input' output' good' fails') :
    Settles step kept (input ++ input') (output ++ output') (good ∧ good')
      (fun error => fails error ∨ fails' error) where
  head := kept_head_append first.head second.head
  outcome rest next := by
    rw [List.append_assoc]
    have before := first.outcome (input' ++ rest) (kept_head_append second.head next)
    have after := second.outcome rest next
    generalize step (input ++ (input' ++ rest)) = whole at before
    generalize step (input' ++ rest) = later at before after
    cases before with
    | failed here => exact .failed (.inl here)
    | failedLater there =>
      subst there
      cases after with
      | failed here => exact .failed (.inr here)
      | failedLater there => exact .failedLater there
    | done well there =>
      subst there
      cases after with
      | done well' there =>
        rw [← List.append_assoc]
        exact .done ⟨well, well'⟩ there

theorem Settles.mono {input output : List Token} {good good' : Prop} {fails fails' : Error → Prop}
    (settles : Settles step kept input output good fails) (better : good → good')
    (worse : ∀ error, fails error → fails' error) :
    Settles step kept input output good' fails' where
  head := settles.head
  outcome rest next := (settles.outcome rest next).mono better worse

/-- A token that a step passes over. -/
theorem Settles.token {token : Token} (starts : kept token)
    (passes : ∀ rest, (∀ token ∈ rest.head?, kept token) →
      step (token :: rest) = (token :: ·) <$> step rest) :
    Settles step kept [token] [token] True (fun _ => False) where
  head := by
    intro other member
    cases member
    exact starts
  outcome rest next := .map (passes rest next)

theorem Settles.flatMap {ι : Type} {input output : ι → List Token} {good : ι → Prop}
    {fails : ι → Error → Prop} (items : List ι)
    (each : ∀ item ∈ items, Settles step kept (input item) (output item) (good item) (fails item)) :
    Settles step kept (items.flatMap input) (items.flatMap output) (∀ item ∈ items, good item)
      (fun error => ∃ item ∈ items, fails item error) := by
  induction items with
  | nil => exact Settles.nil.mono (fun _ => nofun) (fun _ => False.elim)
  | cons item items ih =>
    have first := each item List.mem_cons_self
    have others := ih fun other member => each other (List.mem_cons_of_mem _ member)
    rw [List.flatMap_cons, List.flatMap_cons]
    exact (first.append others).mono (by simp) (by simp)

end Settles

section Trees
variable {α ω β : Type} {unit : AngleUnit} {error : Error}

theorem fails_prefixed {tree : α → Tree} (prefixed : Prefixed α)
    (failed : (tree prefixed.phrase).Fails unit error) :
    (prefixed.tree tree).Fails unit error := by
  obtain ⟨run, phrase⟩ := prefixed
  induction run with
  | nil => exact failed
  | cons lead run ih => exact .inl (ih failed)

/-- An operation of a chain fails if one fails in the part before an operator or in an operand. -/
theorem fails_join {operator : ω → BinaryOperation} {operand : β → Tree} (others : List (ω × β))
    (left : Tree)
    (failed : left.Fails unit error ∨ ∃ other ∈ others, (operand other.2).Fails unit error) :
    (others.foldl (fun left other => .binary (operator other.1) left (operand other.2)) left).Fails
      unit error := by
  induction others generalizing left with
  | nil => simpa using failed
  | cons other others ih =>
    apply ih
    rcases failed with first | ⟨failing, member, failed⟩
    · exact .inl (.inl first)
    · rcases List.mem_cons.1 member with rfl | later
      · exact .inl (.inr (.inl failed))
      · exact .inr ⟨failing, later, failed⟩

end Trees

/-- What holds of the first phrase of a chain and of its operands. -/
def Chain.All {α ω β : Type} (good : α → Prop) (good' : β → Prop) (chain : Chain α ω β) : Prop :=
  good chain.first ∧ ∀ other ∈ chain.others, good' other.2

section Phrases
variable {α ω β : Type} {unit : AngleUnit} {step : List Token → Except Error (List Token)}
  {kept : Token → Prop}

theorem Settles.prefixed {lead : Lead → Token} {input output : α → List Token} {tree : α → Tree}
    {good : α → Prop} (prefixed : Prefixed α)
    (leads : ∀ key, Settles step kept [lead key] [lead key] True (fun _ => False))
    (phrase : Settles step kept (input prefixed.phrase) (output prefixed.phrase)
      (good prefixed.phrase) (fun error => (tree prefixed.phrase).Fails unit error)) :
    Settles step kept (prefixed.text lead input) (prefixed.text lead output)
      (good prefixed.phrase) (fun error => (prefixed.tree tree).Fails unit error) := by
  have run := Settles.flatMap prefixed.run fun key _ => leads key
  rw [← List.map_eq_flatMap] at run
  refine (run.append phrase).mono And.right ?_
  rintro error (⟨_, _, never⟩ | failed)
  · exact never.elim
  · exact fails_prefixed prefixed failed

theorem Settles.chain {head output : α → List Token} {operator : ω → List Token}
    {operand output' : β → List Token} {tree : α → Tree} {join : ω → BinaryOperation}
    {tree' : β → Tree} {good : α → Prop} {good' : β → Prop} (chain : Chain α ω β)
    (operators : ∀ o, Settles step kept (operator o) (operator o) True (fun _ => False))
    (first : Settles step kept (head chain.first) (output chain.first) (good chain.first)
      (fun error => (tree chain.first).Fails unit error))
    (operands : ∀ other ∈ chain.others, Settles step kept (operand other.2) (output' other.2)
      (good' other.2) (fun error => (tree' other.2).Fails unit error)) :
    Settles step kept (chain.text head operator operand) (chain.text output operator output')
      (chain.All good good') (fun error => (chain.tree tree join tree').Fails unit error) := by
  have others := Settles.flatMap chain.others fun other member =>
    (operators other.1).append (operands other member)
  refine (first.append others).mono ?_ ?_
  · rintro ⟨well, wells⟩
    exact ⟨well, fun other member => (wells other member).2⟩
  · intro error failed
    apply fails_join
    simpa using failed

/-- Settling of a phrase that a step turns into its value. -/
theorem Settles.phrase {input : List Token} {tree : Tree}
    (head : ∀ token ∈ input.head?, kept token)
    (outcome : ∀ rest, (∀ token ∈ rest.head?, kept token) →
      step (input ++ rest) = do
        let x ← tree.eval unit
        (.value x :: ·) <$> step rest) :
    Settles step kept input [.value (tree.value unit)] (tree.HasValue unit)
      (fun error => tree.Fails unit error) where
  head := head
  outcome rest next := by
    rw [outcome rest next]
    cases evaluated : tree.eval unit with
    | error e => exact .failed (Tree.fails_of_eval evaluated)
    | ok x =>
      rw [Tree.value_of_eval evaluated]
      exact (Outcome.map rfl).mono (fun _ => Tree.hasValue_of_eval evaluated) (fun _ => False.elim)

end Phrases

section Chains
variable {ω β : Type} {unit : AngleUnit} {step : List Token → Except Error (List Token)}

theorem eval_join_of_error {operator : ω → BinaryOperation} {operand : β → Tree}
    (others : List (ω × β)) {left : Tree} {error : Error} (failed : left.eval unit = .error error) :
    (others.foldl (fun left other => .binary (operator other.1) left (operand other.2)) left).eval
      unit = .error error := by
  induction others generalizing left with
  | nil => exact failed
  | cons other others ih =>
    apply ih
    rw [Tree.eval, failed]
    rfl

/-- A step that applies one operator to the value before it applies the operators of a chain from
left to right. -/
theorem step_join {operator : ω → List Token} {operand : β → List Token} {tree : β → Tree}
    {join : ω → BinaryOperation} (others : List (ω × β))
    (applies : ∀ other ∈ others, ∀ x rest,
      step (.value x :: (operator other.1 ++ operand other.2 ++ rest)) = do
        let y ← (tree other.2).eval unit
        let z ← (join other.1).apply x y
        step (.value z :: rest))
    {left : Tree} {x : Decimal} (known : left.eval unit = .ok x) (rest : List Token) :
    step (.value x :: (others.flatMap (fun other => operator other.1 ++ operand other.2) ++ rest)) =
      (others.foldl (fun left other => .binary (join other.1) left (tree other.2)) left).eval
        unit >>= fun z => step (.value z :: rest) := by
  induction others generalizing left x with
  | nil =>
    rw [List.foldl_nil, known]
    rfl
  | cons other others ih =>
    have first := applies other List.mem_cons_self x
    have later := fun {left x} =>
      @ih (fun other member => applies other (List.mem_cons_of_mem _ member)) left x
    rw [List.flatMap_cons, List.append_assoc, first, List.foldl_cons]
    cases right : (tree other.2).eval unit with
    | error e =>
      have failed : (Tree.binary (join other.1) left (tree other.2)).eval unit = .error e := by
        rw [Tree.eval, known, right]
        rfl
      rw [eval_join_of_error others failed]
      rfl
    | ok y =>
      have joined : (Tree.binary (join other.1) left (tree other.2)).eval unit =
          (join other.1).apply x y := by
        rw [Tree.eval, known, right]
        rfl
      cases applied : (join other.1).apply x y with
      | error e =>
        rw [applied] at joined
        rw [eval_join_of_error others joined]
        simp [applied, bind, Except.bind]
      | ok z =>
        rw [applied] at joined
        rw [← later joined]
        simp [applied, bind, Except.bind]

end Chains

end ScientificCalculator.Grammar
