import ScientificCalculator.Proofs.Grammar.Settling

/-!
The steps of the reduction on the text of a sentence. Once the signs are read, each step turns the
phrases of one level into their values, and leaves the others as they are.
-/

namespace ScientificCalculator.Grammar

def Lead.settled (lead : Lead) : Token := .unary lead.operation

def Atom.settled (atom : Atom) : Token := .value atom.denotation

abbrev NotTrailing (token : Token) : Prop := ∀ f, token ≠ .trailing f

abbrev NotDual (token : Token) : Prop := ∀ o, token ≠ .dual o

abbrev NotMultiplicative (token : Token) : Prop := ∀ o, token ≠ .multiplicative o

abbrev NotAdditive (token : Token) : Prop := ∀ s, token ≠ .additive s

section Levels

def Tight.All (good : Primary → Prop) : Tight → Prop :=
  Chain.All good fun operand => good operand.phrase

def Factor.All (good : Tight → Prop) (factor : Factor) : Prop := good factor.phrase

def Term.All (good : Factor → Prop) : Term → Prop := Chain.All good good

def Sum.All (good : Term → Prop) : Sum → Prop := Chain.All good good

def Sentence.All (good : Sum → Prop) : Sentence → Prop := Chain.All good fun later => good later.1

/-- A step turns each phrase of a level for which `before` holds from its input to its output, after
which `after` holds. -/
def Law {α : Type} (step : List Token → Except Error (List Token)) (kept : Token → Prop)
    (unit : AngleUnit) (tree : α → Tree) (before : α → Prop) (input output : α → List Token)
    (after : α → Prop) : Prop :=
  ∀ phrase, before phrase → Settles step kept (input phrase) (output phrase) (after phrase)
    fun error => (tree phrase).Fails unit error

variable {step : List Token → Except Error (List Token)} {kept : Token → Prop} {unit : AngleUnit}

/-- A token that a step leaves as it is. -/
abbrev Passes (step : List Token → Except Error (List Token)) (kept : Token → Prop)
    (token : Token) : Prop :=
  Settles step kept [token] [token] True fun _ => False

theorem Law.prefixed {α : Type} {tree : α → Tree} {before after : α → Prop}
    {input output : α → List Token} (leads : ∀ lead : Lead, Passes step kept lead.settled)
    (law : Law step kept unit tree before input output after) :
    Law step kept unit (Prefixed.tree tree) (fun prefixed => before prefixed.phrase)
      (Prefixed.text Lead.settled input) (Prefixed.text Lead.settled output)
      (fun prefixed => after prefixed.phrase) :=
  fun prefixed known => .prefixed prefixed leads (law prefixed.phrase known)

theorem Law.tight {before after : Primary → Prop} {input output : Primary → List Token}
    (leads : ∀ lead : Lead, Passes step kept lead.settled)
    (duals : ∀ o, Passes step kept (.dual o))
    (law : Law step kept unit Primary.tree before input output after) :
    Law step kept unit Tight.tree (Tight.All before) (Tight.text Lead.settled input)
      (Tight.text Lead.settled output) (Tight.All after) :=
  fun tight known => .chain tight duals (law tight.first known.1) fun other member =>
    law.prefixed leads other.2 (known.2 other member)

theorem Law.term {before after : Factor → Prop} {input output : Factor → List Token}
    (multiplicatives : ∀ o, Passes step kept (.multiplicative o))
    (law : Law step kept unit Factor.tree before input output after) :
    Law step kept unit Term.tree (Term.All before) (Term.text input) (Term.text output)
      (Term.All after) :=
  fun term known => .chain term multiplicatives (law term.first known.1) fun other member =>
    law other.2 (known.2 other member)

theorem Law.sum {before after : Term → Prop} {input output : Term → List Token}
    (additives : ∀ s, Passes step kept (.additive s))
    (law : Law step kept unit Term.tree before input output after) :
    Law step kept unit Sum.tree (Sum.All before) (Sum.text input) (Sum.text output)
      (Sum.All after) :=
  fun sum known => .chain sum additives (law sum.first known.1) fun other member =>
    law other.2 (known.2 other member)

theorem Law.sentence {before after : Sum → Prop} {input output : Sum → List Token}
    (law : Law step kept unit Sum.tree before input output after) :
    Law step kept unit Sentence.tree (Sentence.All before) (Sentence.text input)
      (Sentence.text output) (Sentence.All after) :=
  fun sentence known => .chain sentence (fun _ => .nil) (law sentence.first known.1)
    fun other member => law other.2.1 (known.2 other member)

/-- A step that applies the operators of a chain from left to right. -/
theorem Settles.join {α ω β : Type} {tree : α → Tree} {operator : ω → List Token}
    {operand : β → List Token} {tree' : β → Tree} {join : ω → BinaryOperation}
    (values : ∀ x, kept (.value x))
    (passes : ∀ x rest, (∀ token ∈ rest.head?, kept token) →
      step (.value x :: rest) = (.value x :: ·) <$> step rest)
    (chain : Chain α ω β) (known : (tree chain.first).HasValue unit)
    (applies : ∀ other ∈ chain.others, ∀ x rest,
      step (.value x :: (operator other.1 ++ operand other.2 ++ rest)) = do
        let y ← (tree' other.2).eval unit
        let z ← (join other.1).apply x y
        step (.value z :: rest)) :
    Settles step kept
      (chain.text (fun phrase => [.value ((tree phrase).value unit)]) operator operand)
      [.value ((chain.tree tree join tree').value unit)]
      ((chain.tree tree join tree').HasValue unit)
      (fun error => (chain.tree tree join tree').Fails unit error) := by
  refine .phrase ?_ fun rest next => ?_
  · rintro token ⟨⟩
    exact values _
  · have joined := step_join chain.others applies known rest
    rw [Chain.text, List.append_assoc, List.singleton_append, joined]
    exact bind_congr fun z => passes z rest next

end Levels

section Signs
variable {α ω β : Type} {after : Bool}

/-- The signs of the input are read as in the output, and an operand ends with it. -/
def Reads (after : Bool) (input output : List Token) : Prop :=
  ∀ rest, readSigns after (input ++ rest) = output ++ readSigns true rest

theorem readSigns_lead {lead : Lead} (unsigned : after = false ∨ lead.isSign = false)
    (rest : List Token) :
    readSigns after (lead.token :: rest) = lead.settled :: readSigns false rest := by
  cases lead with
  | unary u => rfl
  | sign s =>
    cases after with
    | false => rfl
    | true => simp [Lead.isSign] at unsigned

theorem readSigns_run (run : List Lead) (rest : List Token) :
    readSigns false (run.map Lead.token ++ rest) =
      run.map Lead.settled ++ readSigns false rest := by
  induction run with
  | nil => rfl
  | cons lead run ih =>
    rw [List.map_cons, List.cons_append, readSigns_lead (.inl rfl), ih]
    rfl

theorem reads_primary (after : Bool) (primary : Primary) :
    Reads after (primary.text Atom.settled) (primary.text Atom.settled) := by
  obtain ⟨atom, functions⟩ := primary
  intro rest
  have trailing : readSigns true (functions.map .trailing ++ rest) =
      functions.map .trailing ++ readSigns true rest := by
    induction functions with
    | nil => rfl
    | cons f functions ih => exact congrArg (_ :: ·) ih
  exact congrArg (_ :: ·) trailing

theorem reads_prefixed {input output : α → List Token} (prefixed : Prefixed α)
    (unsigned : after = false ∨ prefixed.run.head?.any Lead.isSign = false)
    (phrase : ∀ after, Reads after (input prefixed.phrase) (output prefixed.phrase)) :
    Reads after (prefixed.text Lead.token input) (prefixed.text Lead.settled output) := by
  obtain ⟨run, inner⟩ := prefixed
  intro rest
  cases run with
  | nil => exact phrase after rest
  | cons lead run =>
    rw [Prefixed.text, Prefixed.text, List.append_assoc, List.append_assoc, List.map_cons,
      List.cons_append, readSigns_lead unsigned, readSigns_run, phrase false rest]
    rfl

theorem reads_chain {head head' : α → List Token} {operator : ω → List Token}
    {operand operand' : β → List Token} (chain : Chain α ω β)
    (first : Reads after (head chain.first) (head' chain.first))
    (others : ∀ other ∈ chain.others, Reads true (operator other.1 ++ operand other.2)
      (operator other.1 ++ operand' other.2)) :
    Reads after (chain.text head operator operand) (chain.text head' operator operand') := by
  obtain ⟨phrase, tail⟩ := chain
  intro rest
  have later : readSigns true (tail.flatMap (fun other => operator other.1 ++ operand other.2) ++
      rest) = tail.flatMap (fun other => operator other.1 ++ operand' other.2) ++
        readSigns true rest := by
    induction tail with
    | nil => rfl
    | cons other tail ih =>
      have later := ih first fun other member => others other (List.mem_cons_of_mem _ member)
      rw [List.flatMap_cons, List.append_assoc, others other List.mem_cons_self, later,
        ← List.append_assoc, List.flatMap_cons]
  rw [Chain.text, Chain.text, List.append_assoc, List.append_assoc, first, later]

theorem reads_tight (after : Bool) (tight : Tight) :
    Reads after (tight.text Lead.token (Primary.text Atom.settled))
      (tight.text Lead.settled (Primary.text Atom.settled)) :=
  reads_chain tight (reads_primary after tight.first) fun other _ rest =>
    congrArg (_ :: ·) (reads_prefixed other.2 (.inl rfl) (reads_primary · other.2.phrase) rest)

theorem reads_factor (factor : Factor)
    (unsigned : after = false ∨ factor.run.head?.any Lead.isSign = false) :
    Reads after (factor.text Lead.token (Tight.text Lead.token (Primary.text Atom.settled)))
      (factor.text Lead.settled (Tight.text Lead.settled (Primary.text Atom.settled))) :=
  reads_prefixed factor unsigned (reads_tight · factor.phrase)

theorem reads_term (term : Term)
    (unsigned : after = false ∨ term.first.run.head?.any Lead.isSign = false) :
    Reads after
      (term.text (Prefixed.text Lead.token (Tight.text Lead.token (Primary.text Atom.settled))))
      (term.text
        (Prefixed.text Lead.settled (Tight.text Lead.settled (Primary.text Atom.settled)))) :=
  reads_chain term (reads_factor term.first unsigned) fun other _ rest =>
    congrArg (_ :: ·) (reads_factor other.2 (.inl rfl) rest)

theorem reads_sum (sum : Sum)
    (unsigned : after = false ∨ sum.first.first.run.head?.any Lead.isSign = false) :
    Reads after
      (sum.text (Term.text
        (Prefixed.text Lead.token (Tight.text Lead.token (Primary.text Atom.settled)))))
      (sum.text (Term.text
        (Prefixed.text Lead.settled (Tight.text Lead.settled (Primary.text Atom.settled))))) :=
  reads_chain sum (reads_term sum.first unsigned) fun other _ rest =>
    congrArg (_ :: ·) (reads_term other.2 (.inl rfl) rest)

theorem reads_sentence (sentence : Sentence) :
    Reads false
      (sentence.text (Sum.text (Term.text
        (Prefixed.text Lead.token (Tight.text Lead.token (Primary.text Atom.settled))))))
      (sentence.text (Sum.text (Term.text
        (Prefixed.text Lead.settled (Tight.text Lead.settled (Primary.text Atom.settled)))))) :=
  reads_chain sentence (reads_sum sentence.first (.inl rfl)) fun other _ rest =>
    reads_sum other.2.1 (.inr other.2.2) rest

theorem settle_of_ne {token : Token} (plain : ∀ c, token ≠ .constant c) : token.settle = token := by
  cases token with
  | constant c => exact absurd rfl (plain c)
  | _ => rfl

theorem settle_tokens (sentence : Sentence) :
    sentence.tokens.map Token.settle = sentence.text (Sum.text (Term.text
      (Prefixed.text Lead.token (Tight.text Lead.token (Primary.text Atom.settled))))) := by
  have leads (lead : Lead) : lead.token.settle = lead.token :=
    settle_of_ne (by cases lead <;> exact nofun)
  have atoms (atom : Atom) : atom.token.settle = atom.settled := by cases atom <;> rfl
  simp [Sentence.tokens, Sentence.text, Sum.text, Term.text, Tight.text, Chain.text,
    Prefixed.text, Primary.text, List.map_flatMap, Function.comp_def, leads, atoms, settle_of_ne]

/-- Every sign of a sentence that leads an operand is read as unary, and no other. -/
theorem readSigns_tokens (sentence : Sentence) :
    readSigns false (sentence.tokens.map Token.settle) = sentence.text (Sum.text (Term.text
      (Prefixed.text Lead.settled (Tight.text Lead.settled (Primary.text Atom.settled))))) := by
  have whole := reads_sentence sentence []
  rwa [List.append_nil, readSigns, List.append_nil, ← settle_tokens] at whole

end Signs

section Laws
open Reduction
variable {unit : AngleUnit}

/-- A step that carries the token just read, and puts it out before a token that it passes over. -/
structure Carries (step : Option Token → List Token → Except Error (List Token))
    (kept : Token → Prop) : Prop where
  nil : ∀ before, step before [] = .ok before.toList
  cons : ∀ {token}, kept token → ∀ before rest,
    step before (token :: rest) = (before.toList ++ ·) <$> step (some token) rest

section Carries
variable {step : Option Token → List Token → Except Error (List Token)} {kept : Token → Prop}
  (carries : Carries step kept)
include carries

theorem Carries.putOut (token : Token) {rest : List Token}
    (next : ∀ token ∈ rest.head?, kept token) :
    step (some token) rest = (token :: ·) <$> step none rest := by
  cases rest with
  | nil =>
    rw [carries.nil, carries.nil]
    rfl
  | cons follower rest =>
    have plain := next follower rfl
    rw [carries.cons plain, carries.cons plain]
    exact (congrArg _ (id_map _)).symm

theorem Carries.start {token : Token} (plain : kept token) (rest : List Token) :
    step none (token :: rest) = step (some token) rest :=
  (carries.cons plain none rest).trans (id_map _)

theorem Carries.passOver {token : Token} (plain : kept token) {rest : List Token}
    (next : ∀ token ∈ rest.head?, kept token) :
    step none (token :: rest) = (token :: ·) <$> step none rest := by
  rw [carries.start plain, carries.putOut token next]

theorem Carries.passes {token : Token} (plain : kept token) : Passes (step none) kept token :=
  .token plain fun _ next => carries.passOver plain next

end Carries

theorem carries_applyTrailing : Carries applyTrailing NotTrailing where
  nil _ := rfl
  cons plain before rest := by
    rw [applyTrailing]
    · rfl
    · exact plain

theorem eval_trail_of_error (functions : List TrailingFunction) {tree : Tree} {error : Error}
    (failed : tree.eval unit = .error error) :
    (functions.foldl (fun operand f => .unary (.trailing f) operand) tree).eval unit =
      .error error := by
  induction functions generalizing tree with
  | nil => exact failed
  | cons f functions ih =>
    apply ih
    rw [Tree.eval, failed]
    rfl

theorem applyTrailing_functions (functions : List TrailingFunction) {tree : Tree} {x : Decimal}
    (known : tree.eval unit = .ok x) (rest : List Token) :
    applyTrailing (some (.value x)) (functions.map .trailing ++ rest) =
      (functions.foldl (fun operand f => .unary (.trailing f) operand) tree).eval unit >>=
        fun z => applyTrailing (some (.value z)) rest := by
  induction functions generalizing tree x with
  | nil =>
    rw [List.foldl_nil, known]
    rfl
  | cons f functions ih =>
    have joined : (Tree.unary (.trailing f) tree).eval unit = f.apply x := by
      rw [Tree.eval, known]
      rfl
    rw [List.map_cons, List.cons_append, applyTrailing, List.foldl_cons]
    cases applied : f.apply x with
    | error e =>
      rw [applied] at joined
      rw [eval_trail_of_error functions joined]
      rfl
    | ok z =>
      rw [applied] at joined
      exact ih joined

theorem applyTrailing_law :
    Law (applyTrailing none) NotTrailing unit Primary.tree
      (fun _ => True) (Primary.text Atom.settled)
      (fun primary => [.value (primary.tree.value unit)])
      (fun primary => primary.tree.HasValue unit) := by
  intro primary _
  have plain (x : Decimal) : NotTrailing (.value x) := nofun
  refine .phrase ?_ fun rest next => ?_
  · rintro token ⟨⟩
    exact plain _
  · have leaf : (Tree.leaf primary.atom.denotation).eval unit = .ok primary.atom.denotation := rfl
    have applied := applyTrailing_functions primary.functions leaf rest
    rw [Primary.text, List.cons_append, Atom.settled, carries_applyTrailing.start (plain _),
      applied]
    exact bind_congr fun z => carries_applyTrailing.putOut (.value z) next

theorem carries_applyDuals : Carries (applyDuals unit) NotDual where
  nil before := by rw [applyDuals]
  cons plain before rest := by
    rw [applyDuals]
    · rfl
    · exact plain

theorem takeOperand_run (run : List Lead) {tree : Tree} {x : Decimal}
    (known : tree.eval unit = .ok x) (rest : List Token) :
    takeOperand unit (run.map Lead.settled ++ .value x :: rest) =
      (·, rest) <$> (run.foldr (fun lead operand => .unary (.leading lead.operation) operand)
        tree).eval unit := by
  induction run with
  | nil =>
    rw [List.foldr_nil, known]
    rfl
  | cons lead run ih =>
    rw [List.map_cons, List.cons_append, Lead.settled, takeOperand, ih, List.foldr_cons, Tree.eval]
    generalize (run.foldr _ tree).eval unit = inner
    cases inner with
    | error e => rfl
    | ok y =>
      simp only [UnaryOperation.apply, map_eq_pure_bind, pure_bind, bind_assoc]

theorem applyDuals_dual (operator : DualOperator) (prefixed : Prefixed Primary)
    (known : prefixed.phrase.tree.HasValue unit) (x : Decimal) (rest : List Token) :
    applyDuals unit none (.value x :: ([.dual operator] ++
        prefixed.text Lead.settled (fun primary => [.value (primary.tree.value unit)]) ++ rest)) =
      (do
        let y ← (prefixed.tree Primary.tree).eval unit
        let z ← operator.apply x y
        applyDuals unit none (.value z :: rest)) := by
  have plain (x : Decimal) : NotDual (.value x) := nofun
  rw [carries_applyDuals.start (plain x), List.append_assoc, List.singleton_append, applyDuals]
  have taken := takeOperand_run prefixed.run known rest
  rw [Prefixed.text, List.append_assoc, List.singleton_append, Prefixed.tree]
  generalize (prefixed.run.foldr _ prefixed.phrase.tree).eval unit = operand at taken ⊢
  split
  · rename_i e failed
    rw [taken] at failed
    cases operand with
    | error e' =>
      cases failed
      rfl
    | ok y => cases failed
  · rename_i y others found
    rw [taken] at found
    cases operand with
    | error e => cases found
    | ok y' =>
      cases found
      have next (z : Decimal) : applyDuals unit none (.value z :: rest) =
          applyDuals unit (some (.value z)) rest := carries_applyDuals.start (plain z) rest
      rw [applyDual]
      show _ = operator.apply x y >>= fun z => applyDuals unit none (.value z :: rest)
      cases operator.apply x y with
      | error e => rfl
      | ok z => exact (next z).symm

theorem applyUnary_cons {token : Token} (plain : ∀ u, token ≠ .unary u) (rest : List Token) :
    applyUnary unit (token :: rest) = (token :: ·) <$> applyUnary unit rest := by
  cases rest with
  | nil => rfl
  | cons next rest =>
    cases token with
    | unary u => exact absurd rfl (plain u)
    | _ => rfl

theorem applyUnary_run (run : List Lead) {tree : Tree} {x : Decimal}
    (known : tree.eval unit = .ok x) (rest : List Token) :
    applyUnary unit (run.map Lead.settled ++ .value x :: rest) = (do
      let reduced ← applyUnary unit rest
      let z ← (run.foldr (fun lead operand => .unary (.leading lead.operation) operand) tree).eval
        unit
      return .value z :: reduced) := by
  induction run with
  | nil =>
    have plain : ∀ u, Token.value x ≠ .unary u := nofun
    rw [List.map_nil, List.nil_append, applyUnary_cons plain, List.foldr_nil, known]
    rfl
  | cons lead run ih =>
    rw [List.map_cons, List.cons_append, applyUnary, ih, List.foldr_cons, Tree.eval]
    · generalize (run.foldr _ tree).eval unit = operand
      cases applyUnary unit rest with
      | error e => rfl
      | ok reduced =>
        cases operand with
        | error e => rfl
        | ok y => rfl
    · simp

theorem applyMultiplicative_cons {token : Token} (plain : NotMultiplicative token)
    (before : Token) (rest : List Token) :
    applyMultiplicative before (token :: rest) =
      (before :: ·) <$> applyMultiplicative token rest := by
  rw [applyMultiplicative]
  · rfl
  · intro o _ _ same
    exact absurd same (plain o)

theorem applyAdditive_cons {token : Token} (plain : NotAdditive token)
    (before : Token) (rest : List Token) :
    applyAdditive before (token :: rest) = (before :: ·) <$> applyAdditive token rest := by
  rw [applyAdditive]
  · rfl
  · exact plain

/-- A step that keeps the token before each token it passes over. -/
theorem fromFirst_cons {step : Token → List Token → Except Error (List Token)}
    {kept : Token → Prop} (nil : ∀ before, step before [] = .ok [before])
    (cons : ∀ {token}, kept token → ∀ before rest,
      step before (token :: rest) = (before :: ·) <$> step token rest)
    (token : Token) {rest : List Token} (next : ∀ token ∈ rest.head?, kept token) :
    fromFirst step (token :: rest) = (token :: ·) <$> fromFirst step rest := by
  cases rest with
  | nil => exact nil token
  | cons follower rest => exact cons (next follower rfl) token rest

theorem applyDuals_law :
    Law (applyDuals unit none) NotDual unit Tight.tree
      (Tight.All fun primary => primary.tree.HasValue unit)
      (Tight.text Lead.settled fun primary => [.value (primary.tree.value unit)])
      (fun tight => [.value (tight.tree.value unit)]) (fun tight => tight.tree.HasValue unit) := by
  have plain (x : Decimal) : NotDual (.value x) := nofun
  intro tight known
  refine .join plain (fun x _ next => ?_) tight known.1 fun other member => ?_
  · exact carries_applyDuals.passOver (plain x) next
  · exact applyDuals_dual other.1 other.2 (known.2 other member)

/-- The operations before a value are applied after all that stands behind it. -/
theorem applyUnary_law :
    Law (applyUnary unit) (fun _ => True) unit Factor.tree
      (fun factor => factor.phrase.tree.HasValue unit)
      (Prefixed.text Lead.settled fun tight => [.value (tight.tree.value unit)])
      (fun factor => [.value (factor.tree.value unit)])
      (fun factor => factor.tree.HasValue unit) := by
  refine fun factor known => ⟨fun _ _ => trivial, fun rest _ => ?_⟩
  have applied : applyUnary unit (factor.text Lead.settled (fun tight => [.value
      (tight.tree.value unit)]) ++ rest) = (do
        let reduced ← applyUnary unit rest
        let z ← factor.tree.eval unit
        return .value z :: reduced) := by
    rw [Prefixed.text, List.append_assoc]
    exact applyUnary_run factor.run known rest
  rw [applied]
  cases applyUnary unit rest with
  | error e => exact .failedLater rfl
  | ok reduced =>
    cases evaluated : factor.tree.eval unit with
    | error e =>
      simp only [bind, Except.bind]
      exact .failed (Tree.fails_of_eval evaluated)
    | ok z =>
      simp only [bind, Except.bind, Tree.value_of_eval evaluated]
      exact .done (Tree.hasValue_of_eval evaluated) rfl

theorem applyMultiplicative_law :
    Law (fromFirst applyMultiplicative) NotMultiplicative unit Term.tree
      (Term.All fun factor => factor.tree.HasValue unit)
      (Term.text fun factor => [.value (factor.tree.value unit)])
      (fun term => [.value (term.tree.value unit)]) (fun term => term.tree.HasValue unit) := by
  refine fun term known => .join (fun _ => nofun) (fun x _ next => ?_) term known.1
    fun other member x rest => ?_
  · exact fromFirst_cons (fun _ => rfl) applyMultiplicative_cons (.value x) next
  · rw [known.2 other member]
    rfl

theorem applyAdditive_law :
    Law (fromFirst applyAdditive) NotAdditive unit Sum.tree
      (Sum.All fun term => term.tree.HasValue unit)
      (Sum.text fun term => [.value (term.tree.value unit)])
      (fun sum => [.value (sum.tree.value unit)]) (fun sum => sum.tree.HasValue unit) := by
  refine fun sum known => .join (fun _ => nofun) (fun x _ next => ?_) sum known.1
    fun other member x rest => ?_
  · exact fromFirst_cons (fun _ => rfl) applyAdditive_cons (.value x) next
  · rw [known.2 other member]
    rfl

end Laws

end ScientificCalculator.Grammar
