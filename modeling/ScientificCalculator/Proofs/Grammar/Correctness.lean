import ScientificCalculator.Proofs.Grammar.Acceptance
import ScientificCalculator.Proofs.Grammar.Steps

/-!
The reduction computes the trees of the grammar. On a sentence, the steps one after the other settle
all its phrases or stop at an operation of its tree; a list of tokens that is not a sentence has no
value.
-/

namespace ScientificCalculator.Grammar

open Reduction

section Run
variable {unit : AngleUnit}

/-- A calculation has the result `output`, of which `good` holds, or an operation of the tree
fails as it does. -/
inductive Runs {α : Type} (unit : AngleUnit) (tree : Tree) (good : Prop) (output : α) :
    Except Error α → Prop where
  | ok (well : good) : Runs unit tree good output (.ok output)
  | error {error : Error} (failed : tree.Fails unit error) :
      Runs unit tree good output (.error error)

theorem Runs.bind {α β : Type} {tree : Tree} {good good' : Prop} {output : α} {output' : β}
    {result : Except Error α} {next : α → Except Error β}
    (first : Runs unit tree good output result)
    (rest : good → Runs unit tree good' output' (next output)) :
    Runs unit tree good' output' (result >>= next) := by
  cases first with
  | ok well => exact rest well
  | error failed => exact .error failed

theorem Law.runs {α : Type} {step : List Token → Except Error (List Token)} {kept : Token → Prop}
    {tree : α → Tree} {before after : α → Prop} {input output : α → List Token}
    (law : Law step kept unit tree before input output after) (empty : step [] = .ok [])
    {phrase : α} (known : before phrase) :
    Runs unit (tree phrase) (after phrase) (output phrase) (step (input phrase)) := by
  have outcome := (law phrase known).outcome [] nofun
  rw [List.append_nil, empty] at outcome
  generalize step (input phrase) = whole at outcome
  cases outcome with
  | done well there =>
    cases there
    rw [List.append_nil]
    exact .ok well
  | failed here => exact .error here
  | failedLater there => cases there

theorem trailing_sentence : Law (applyTrailing none) NotTrailing unit
    Sentence.tree
    (Sentence.All (Sum.All (Term.All (Factor.All (Tight.All fun _ => True)))))
    (Sentence.text (Sum.text (Term.text (Prefixed.text Lead.settled (Tight.text Lead.settled
      (Primary.text Atom.settled))))))
    (Sentence.text (Sum.text (Term.text (Prefixed.text Lead.settled (Tight.text Lead.settled
      fun primary => [.value (primary.tree.value unit)])))))
    (Sentence.All (Sum.All (Term.All (Factor.All (Tight.All fun primary =>
      primary.tree.HasValue unit))))) := by
  have passes {token : Token} (plain : NotTrailing token) := carries_applyTrailing.passes plain
  have leads (lead : Lead) := @passes lead.settled nofun
  exact ((((applyTrailing_law.tight leads fun _ => passes nofun).prefixed leads).term
    fun _ => passes nofun).sum fun _ => passes nofun).sentence

theorem duals_sentence : Law (applyDuals unit none) NotDual unit
    Sentence.tree
    (Sentence.All (Sum.All (Term.All (Factor.All (Tight.All fun primary =>
      primary.tree.HasValue unit)))))
    (Sentence.text (Sum.text (Term.text (Prefixed.text Lead.settled (Tight.text Lead.settled
      fun primary => [.value (primary.tree.value unit)])))))
    (Sentence.text (Sum.text (Term.text (Prefixed.text Lead.settled
      fun tight => [.value (tight.tree.value unit)]))))
    (Sentence.All (Sum.All (Term.All (Factor.All fun tight => tight.tree.HasValue unit)))) := by
  have passes {token : Token} (plain : NotDual token) := (@carries_applyDuals unit).passes plain
  exact (((applyDuals_law.prefixed fun lead => passes nofun).term fun _ => passes nofun).sum
    fun _ => passes nofun).sentence

theorem unary_sentence : Law (applyUnary unit) (fun _ => True) unit Sentence.tree
    (Sentence.All (Sum.All (Term.All (Factor.All fun tight => tight.tree.HasValue unit))))
    (Sentence.text (Sum.text (Term.text (Prefixed.text Lead.settled
      fun tight => [.value (tight.tree.value unit)]))))
    (Sentence.text (Sum.text (Term.text fun factor => [.value (factor.tree.value unit)])))
    (Sentence.All (Sum.All (Term.All fun factor => factor.tree.HasValue unit))) := by
  have passes {token : Token} (plain : ∀ u, token ≠ .unary u) :
      Passes (applyUnary unit) (fun _ => True) token :=
    .token trivial fun rest _ => applyUnary_cons plain rest
  exact ((applyUnary_law.term fun _ => passes nofun).sum fun _ => passes nofun).sentence

theorem multiplicative_sentence :
    Law (fromFirst applyMultiplicative) NotMultiplicative unit
      Sentence.tree (Sentence.All (Sum.All (Term.All fun factor => factor.tree.HasValue unit)))
      (Sentence.text (Sum.text (Term.text fun factor => [.value (factor.tree.value unit)])))
      (Sentence.text (Sum.text fun term => [.value (term.tree.value unit)]))
      (Sentence.All (Sum.All fun term => term.tree.HasValue unit)) :=
  (applyMultiplicative_law.sum fun _ => .token nofun fun _ next =>
    fromFirst_cons (fun _ => rfl) applyMultiplicative_cons _ next).sentence

theorem additive_sentence :
    Law (fromFirst applyAdditive) NotAdditive unit Sentence.tree
      (Sentence.All (Sum.All fun term => term.tree.HasValue unit))
      (Sentence.text (Sum.text fun term => [.value (term.tree.value unit)]))
      (Sentence.text fun sum => [.value (sum.tree.value unit)])
      (Sentence.All fun sum => sum.tree.HasValue unit) :=
  applyAdditive_law.sentence

theorem mapM_value? (values : List Decimal) :
    (values.map Token.value).mapM value? = some values := by
  induction values with
  | nil => rfl
  | cons x values ih =>
    rw [List.map_cons, List.mapM_cons, ih]
    rfl

theorem eval_juxtaposition (others : List (Unit × LaterSum))
    (known : ∀ other ∈ others, other.2.1.tree.HasValue unit) {left : Tree} {x : Decimal}
    (first : left.eval unit = .ok x) :
    (others.foldl (fun left other => .binary .juxtaposition left other.2.1.tree) left).eval unit =
      .ok ((others.map fun other => other.2.1.tree.value unit).foldl (· * ·) x) := by
  induction others generalizing left x with
  | nil => exact first
  | cons other others ih =>
    have joined : (Tree.binary .juxtaposition left other.2.1.tree).eval unit =
        .ok (x * other.2.1.tree.value unit) := by
      rw [Tree.eval, first, known other List.mem_cons_self]
      rfl
    exact ih (fun other member => known other (List.mem_cons_of_mem _ member)) joined

/-- The values left side by side are multiplied to the value of the tree. -/
theorem product_sentence (sentence : Sentence)
    (known : sentence.All fun sum => sum.tree.HasValue unit) :
    product (sentence.text fun sum => [.value (sum.tree.value unit)]) =
      sentence.tree.eval unit := by
  have values : sentence.text (fun sum => [.value (sum.tree.value unit)]) =
      (sentence.first.tree.value unit :: sentence.others.map fun other =>
        other.2.1.tree.value unit).map Token.value := by
    simp [Sentence.text, Chain.text, List.map_eq_flatMap, List.flatMap_assoc]
  have evaluated := eval_juxtaposition sentence.others known.2 known.1
  rw [values, product, mapM_value?]
  exact evaluated.symm

/-- The reduction of a sentence has the value of its tree, or stops at an operation of it. -/
theorem reduce_sentence (sentence : Sentence)
    (unmarked : ∀ token ∈ sentence.tokens, token.isMark = false) :
    Runs unit sentence.tree (sentence.tree.HasValue unit) (sentence.tree.value unit)
      (reduce unit sentence.tokens) := by
  rw [reduce, foldExponents_of_unmarked unmarked, readNumerals_of_unmarked unmarked]
  show Runs _ _ _ _ (applyTrailing none (readSigns false _) >>= _)
  rw [readSigns_tokens]
  have operands : sentence.All (Sum.All (Term.All (Factor.All (Tight.All fun _ => True)))) := by
    simp [Sentence.All, Sum.All, Term.All, Factor.All, Tight.All, Chain.All]
  refine (trailing_sentence.runs rfl operands).bind fun primaries => ?_
  refine (duals_sentence.runs (by rw [applyDuals]; rfl) primaries).bind fun tights => ?_
  refine (unary_sentence.runs rfl tights).bind fun factors => ?_
  refine (multiplicative_sentence.runs rfl factors).bind fun terms => ?_
  refine (additive_sentence.runs rfl terms).bind fun sums => ?_
  rw [product_sentence sentence sums]
  cases evaluated : sentence.tree.eval unit with
  | error e => exact .error (Tree.fails_of_eval evaluated)
  | ok x =>
    rw [Tree.value_of_eval evaluated]
    exact .ok (Tree.hasValue_of_eval evaluated)

end Run

theorem Tree.not_fails_of_eval {unit : AngleUnit} {tree : Tree} {x : Decimal}
    (evaluated : tree.eval unit = .ok x) (error : Error) : ¬ tree.Fails unit error := by
  induction tree generalizing x with
  | leaf y => exact id
  | unary f operand ih =>
    obtain ⟨y, known, applied⟩ := bind_eq_ok_iff.1 evaluated
    rintro (inner | ⟨z, same, failed⟩)
    · exact ih known inner
    · rw [known] at same
      cases same
      rw [applied] at failed
      cases failed
  | binary o left right first second =>
    obtain ⟨y, knownLeft, rest⟩ := bind_eq_ok_iff.1 evaluated
    obtain ⟨z, knownRight, applied⟩ := bind_eq_ok_iff.1 rest
    rintro (inner | inner | ⟨y', z', sameLeft, sameRight, failed⟩)
    · exact first knownLeft inner
    · exact second knownRight inner
    · rw [knownLeft] at sameLeft
      rw [knownRight] at sameRight
      cases sameLeft
      cases sameRight
      rw [applied] at failed
      cases failed

/-- Tokens without marks have a value exactly if they are those of a sentence whose tree has this
value. There is no other sentence with these tokens, and where its reduction fails, an operation of
the tree does. -/
theorem reduce_follows_grammar (unit : AngleUnit) {tokens : List Token}
    (unmarked : ∀ token ∈ tokens, token.isMark = false) :
    (∀ x, reduce unit tokens = .ok x ↔
      ∃ sentence : Sentence, sentence.tokens = tokens ∧ sentence.tree.eval unit = .ok x) ∧
    (∀ sentence sentence' : Sentence, sentence.tokens = tokens → sentence'.tokens = tokens →
      sentence = sentence') ∧
    ∀ sentence : Sentence, sentence.tokens = tokens → ∀ error, reduce unit tokens = .error error →
      sentence.tree.Fails unit error := by
  have run (sentence : Sentence) (same : sentence.tokens = tokens) :
      Runs unit sentence.tree (sentence.tree.HasValue unit) (sentence.tree.value unit)
        (reduce unit tokens) := by
    subst same
    exact reduce_sentence sentence unmarked
  refine ⟨fun x => ⟨fun reduced => ?_, ?_⟩, ?_, ?_⟩
  · have accepted : accepts (none : Option Atom).isSome tokens = true :=
      accepts_of_reduce unmarked reduced
    obtain ⟨sentence, found⟩ := Sentence.exists_read_of_accepts accepted
    have same := (Sentence.tokens_of_read found).1
    have result := run sentence same
    rw [reduced] at result
    cases result with
    | ok known => exact ⟨sentence, same, known⟩
  · rintro ⟨sentence, same, evaluated⟩
    have result := run sentence same
    generalize reduce unit tokens = whole at result
    cases result with
    | ok known => rw [Tree.value_of_eval evaluated]
    | error failed => exact absurd failed (Tree.not_fails_of_eval evaluated _)
  · intro sentence sentence' same same'
    exact Sentence.tokens_injective (same.trans same'.symm)
  · intro sentence same error failed
    have result := run sentence same
    rw [failed] at result
    cases result with
    | error failed => exact failed

def Sum.ofAtoms (first : Atom) (others : List (Sign × Atom)) : Sum :=
  ⟨⟨⟨[], ⟨⟨first, []⟩, []⟩⟩, []⟩, others.map fun other =>
    (other.1, ⟨⟨[], ⟨⟨other.2, []⟩, []⟩⟩, []⟩)⟩

/-- Values side by side are multiplied last, so this is (1 + 2) · 3. -/
theorem reduce_sum_before_answer :
    reduce .degrees [.value ⟨1, 0⟩, .additive .plus, .value ⟨2, 0⟩, .constant (.answer ⟨3, 0⟩)] =
      .ok ⟨9, 0⟩ :=
  ((reduce_follows_grammar .degrees (by decide)).1 ⟨9, 0⟩).2
    ⟨⟨Sum.ofAtoms (.value ⟨1, 0⟩) [(.plus, .value ⟨2, 0⟩)],
      [((), ⟨Sum.ofAtoms (.constant (.answer ⟨3, 0⟩)) [], rfl⟩)]⟩, rfl,
      congrArg Except.ok (by decide +kernel : (⟨1, 0⟩ + ⟨2, 0⟩) * ⟨3, 0⟩ = (⟨9, 0⟩ : Decimal))⟩

end ScientificCalculator.Grammar
