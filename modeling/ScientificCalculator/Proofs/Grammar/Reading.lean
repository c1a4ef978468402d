import ScientificCalculator.Proofs.Grammar.Phrase

/-!
The sentence of a list of tokens, read from the right: what stands before a sentence joins it at its
first atom. Reading gives back every sentence from its tokens, so a list of tokens has at most one
sentence, and whether it has one depends only on which tokens stand side by side.
-/

namespace ScientificCalculator.Grammar

namespace Sentence

def firstRun (sentence : Sentence) : List Lead := sentence.first.first.first.run

def ofAtom (atom : Atom) : Sentence := ⟨⟨⟨⟨[], ⟨⟨atom, []⟩, []⟩⟩, []⟩, []⟩, []⟩

def lead (lead : Lead) : Sentence → Sentence
  | ⟨⟨⟨⟨run, tight⟩, factors⟩, terms⟩, sums⟩ => ⟨⟨⟨⟨lead :: run, tight⟩, factors⟩, terms⟩, sums⟩

/-- Adds a trailing function directly after the first atom. -/
def trail (f : TrailingFunction) : Sentence → Sentence
  | ⟨⟨⟨⟨run, ⟨⟨atom, functions⟩, duals⟩⟩, factors⟩, terms⟩, sums⟩ =>
    ⟨⟨⟨⟨run, ⟨⟨atom, f :: functions⟩, duals⟩⟩, factors⟩, terms⟩, sums⟩

def joinDual (atom : Atom) (operator : DualOperator) : Sentence → Sentence
  | ⟨⟨⟨⟨run, ⟨primary, duals⟩⟩, factors⟩, terms⟩, sums⟩ =>
    ⟨⟨⟨⟨[], ⟨⟨atom, []⟩, (operator, ⟨run, primary⟩) :: duals⟩⟩, factors⟩, terms⟩, sums⟩

def joinFactor (atom : Atom) (operator : Multiplicative) : Sentence → Sentence
  | ⟨⟨⟨factor, factors⟩, terms⟩, sums⟩ =>
    ⟨⟨⟨⟨[], ⟨⟨atom, []⟩, []⟩⟩, (operator, factor) :: factors⟩, terms⟩, sums⟩

def joinTerm (atom : Atom) (sign : Sign) : Sentence → Sentence
  | ⟨⟨term, terms⟩, sums⟩ =>
    ⟨⟨⟨⟨[], ⟨⟨atom, []⟩, []⟩⟩, []⟩, (sign, term) :: terms⟩, sums⟩

def joinSum (atom : Atom) (sentence : Sentence)
    (unsigned : sentence.firstRun.head?.any Lead.isSign = false) : Sentence :=
  ⟨⟨⟨⟨[], ⟨⟨atom, []⟩, []⟩⟩, []⟩, []⟩, ((), ⟨sentence.first, unsigned⟩) :: sentence.others⟩

/-- Puts a sentence after the atom before it, if there is one. -/
def follow (pending : Option Atom) (sentence : Sentence) : Option Sentence :=
  match pending with
  | none => some sentence
  | some atom =>
    if unsigned : sentence.firstRun.head?.any Lead.isSign = false then
      some (joinSum atom sentence unsigned)
    else none

/-- The sentence of the tokens after an atom that has been read but not placed yet. -/
@[simp]
def read (pending : Option Atom) : List Token → Option Sentence
  | [] => pending.map ofAtom
  | .value x :: rest => (read (some (.value x)) rest).bind (follow pending)
  | .constant c :: rest => (read (some (.constant c)) rest).bind (follow pending)
  | .unary u :: rest => ((read none rest).map (lead (.unary u))).bind (follow pending)
  | .additive s :: rest => (read none rest).map ((pending.elim (lead (.sign s))) (joinTerm · s))
  | .dual o :: rest => pending.bind fun atom => (read none rest).map (joinDual atom o)
  | .multiplicative o :: rest => pending.bind fun atom => (read none rest).map (joinFactor atom o)
  | .trailing f :: rest => pending.bind fun atom => (read (some atom) rest).map (trail f)
  | _ => none

theorem tokens_ofAtom (atom : Atom) : (ofAtom atom).tokens = [atom.token] := rfl

theorem tokens_lead (first : Lead) (sentence : Sentence) :
    (sentence.lead first).tokens = first.token :: sentence.tokens := rfl

theorem tokens_joinDual (atom : Atom) (operator : DualOperator) (sentence : Sentence) :
    (sentence.joinDual atom operator).tokens =
      atom.token :: .dual operator :: sentence.tokens := by
  simp [joinDual, tokens, text, Sum.text, Term.text, Tight.text, Chain.text, Prefixed.text,
    Primary.text]

theorem tokens_joinFactor (atom : Atom) (operator : Multiplicative) (sentence : Sentence) :
    (sentence.joinFactor atom operator).tokens =
      atom.token :: .multiplicative operator :: sentence.tokens := by
  simp [joinFactor, tokens, text, Sum.text, Term.text, Tight.text, Chain.text, Prefixed.text,
    Primary.text]

theorem tokens_joinTerm (atom : Atom) (sign : Sign) (sentence : Sentence) :
    (sentence.joinTerm atom sign).tokens = atom.token :: .additive sign :: sentence.tokens := by
  simp [joinTerm, tokens, text, Sum.text, Term.text, Tight.text, Chain.text, Prefixed.text,
    Primary.text]

theorem tokens_joinSum (atom : Atom) (sentence : Sentence)
    (unsigned : sentence.firstRun.head?.any Lead.isSign = false) :
    (joinSum atom sentence unsigned).tokens = atom.token :: sentence.tokens := by
  simp [joinSum, tokens, text, Sum.text, Term.text, Tight.text, Chain.text, Prefixed.text,
    Primary.text]

theorem tokens_trail {sentence : Sentence} (f : TrailingFunction) {token : Token}
    {rest : List Token} (bare : sentence.firstRun = [])
    (text : sentence.tokens = token :: rest) :
    (sentence.trail f).tokens = token :: .trailing f :: rest := by
  obtain ⟨⟨⟨⟨run, ⟨⟨atom, functions⟩, duals⟩⟩, factors⟩, terms⟩, sums⟩ := sentence
  obtain rfl : run = [] := bare
  cases text
  rfl

theorem tokens_of_follow {pending : Option Atom} {sentence result : Sentence}
    (followed : follow pending sentence = some result) :
    result.tokens = pending.toList.map Atom.token ++ sentence.tokens ∧
      (pending.isSome → result.firstRun = []) := by
  cases pending with
  | none =>
    cases followed
    simp
  | some atom =>
    simp only [follow, Option.dite_none_right_eq_some, Option.some.injEq] at followed
    obtain ⟨unsigned, rfl⟩ := followed
    exact ⟨tokens_joinSum atom sentence unsigned, fun _ => rfl⟩

/-- A sentence that was read has the tokens it was read from. -/
theorem tokens_of_read {pending : Option Atom} {tokens : List Token} {sentence : Sentence}
    (found : read pending tokens = some sentence) :
    sentence.tokens = pending.toList.map Atom.token ++ tokens ∧
      (pending.isSome → sentence.firstRun = []) := by
  fun_induction read pending tokens generalizing sentence with
  | case1 pending =>
    obtain ⟨atom, rfl, rfl⟩ := Option.map_eq_some_iff.1 found
    exact ⟨tokens_ofAtom atom, fun _ => rfl⟩
  | case2 pending x rest ih | case3 pending c rest ih =>
    obtain ⟨inner, reading, followed⟩ := Option.bind_eq_some_iff.1 found
    have outer := tokens_of_follow followed
    rw [(ih reading).1] at outer
    exact outer
  | case4 pending u rest ih =>
    obtain ⟨led, mapped, followed⟩ := Option.bind_eq_some_iff.1 found
    obtain ⟨inner, reading, rfl⟩ := Option.map_eq_some_iff.1 mapped
    have outer := tokens_of_follow followed
    rw [tokens_lead, (ih reading).1] at outer
    exact outer
  | case5 pending s rest ih =>
    obtain ⟨inner, reading, rfl⟩ := Option.map_eq_some_iff.1 found
    have tail := (ih reading).1
    cases pending with
    | none => exact ⟨by rw [Option.elim, tokens_lead, tail]; rfl, by simp⟩
    | some atom => exact ⟨by rw [Option.elim, tokens_joinTerm, tail]; rfl, fun _ => rfl⟩
  | case6 pending o rest ih =>
    obtain ⟨atom, rfl, mapped⟩ := Option.bind_eq_some_iff.1 found
    obtain ⟨inner, reading, rfl⟩ := Option.map_eq_some_iff.1 mapped
    exact ⟨by rw [tokens_joinDual, (ih reading).1]; rfl, fun _ => rfl⟩
  | case7 pending o rest ih =>
    obtain ⟨atom, rfl, mapped⟩ := Option.bind_eq_some_iff.1 found
    obtain ⟨inner, reading, rfl⟩ := Option.map_eq_some_iff.1 mapped
    exact ⟨by rw [tokens_joinFactor, (ih reading).1]; rfl, fun _ => rfl⟩
  | case8 pending f rest ih =>
    obtain ⟨atom, rfl, mapped⟩ := Option.bind_eq_some_iff.1 found
    obtain ⟨inner, reading, rfl⟩ := Option.map_eq_some_iff.1 mapped
    obtain ⟨tail, bare⟩ := ih atom reading
    exact ⟨tokens_trail f (bare rfl) tail, fun _ => bare rfl⟩
  | case9 => cases found

theorem read_none_cons (atom : Atom) (rest : List Token) :
    read none (atom.token :: rest) = read (some atom) rest := by
  cases atom <;> exact Option.bind_fun_some _

theorem tokens_of_bare {sentence : Sentence} (bare : sentence.firstRun = []) :
    ∃ (atom : Atom) (rest : List Token), sentence.tokens = atom.token :: rest := by
  obtain ⟨⟨⟨⟨run, ⟨⟨atom, functions⟩, duals⟩⟩, factors⟩, terms⟩, sums⟩ := sentence
  obtain rfl : run = [] := bare
  exact ⟨atom, _, rfl⟩

theorem exists_lead {sentence : Sentence} {first : Lead} {run : List Lead}
    (starts : sentence.firstRun = first :: run) :
    ∃ inner : Sentence, sentence = inner.lead first := by
  obtain ⟨⟨⟨⟨all, tight⟩, factors⟩, terms⟩, sums⟩ := sentence
  obtain rfl : all = first :: run := starts
  exact ⟨⟨⟨⟨⟨run, tight⟩, factors⟩, terms⟩, sums⟩, rfl⟩

/-- A sentence that starts without a sign is the next sum after an atom. -/
theorem read_unsigned {sentence : Sentence} (atom : Atom)
    (unsigned : sentence.firstRun.head?.any Lead.isSign = false) :
    read (some atom) sentence.tokens = (read none sentence.tokens).bind (follow (some atom)) := by
  cases starts : sentence.firstRun with
  | nil =>
    obtain ⟨next, rest, text⟩ := tokens_of_bare starts
    rw [text, read_none_cons]
    cases next <;> rfl
  | cons first run =>
    obtain ⟨inner, rfl⟩ := exists_lead starts
    rw [starts] at unsigned
    cases first with
    | unary u =>
      rw [tokens_lead, Lead.token, read, read]
      cases read none inner.tokens <;> rfl
    | sign s => cases unsigned

section Known
variable {sentence : Sentence} (known : read none sentence.tokens = some sentence)
include known

theorem read_lead (first : Lead) :
    read none (sentence.lead first).tokens = some (sentence.lead first) := by
  rw [tokens_lead]
  cases first <;> simp [Lead.token, known, follow]

theorem read_joinDual (atom : Atom) (operator : DualOperator) :
    read none (sentence.joinDual atom operator).tokens =
      some (sentence.joinDual atom operator) := by
  rw [tokens_joinDual, read_none_cons]
  simp [known]

theorem read_joinFactor (atom : Atom) (operator : Multiplicative) :
    read none (sentence.joinFactor atom operator).tokens =
      some (sentence.joinFactor atom operator) := by
  rw [tokens_joinFactor, read_none_cons]
  simp [known]

theorem read_joinTerm (atom : Atom) (sign : Sign) :
    read none (sentence.joinTerm atom sign).tokens = some (sentence.joinTerm atom sign) := by
  rw [tokens_joinTerm, read_none_cons]
  simp [known]

theorem read_trail (f : TrailingFunction) (bare : sentence.firstRun = []) :
    read none (sentence.trail f).tokens = some (sentence.trail f) := by
  obtain ⟨atom, rest, text⟩ := tokens_of_bare bare
  rw [text, read_none_cons] at known
  rw [tokens_trail f bare text, read_none_cons]
  simp [known]

theorem read_joinSum (atom : Atom)
    (unsigned : sentence.firstRun.head?.any Lead.isSign = false) :
    read none (sentence.joinSum atom unsigned).tokens =
      some (sentence.joinSum atom unsigned) := by
  rw [tokens_joinSum, read_none_cons, read_unsigned atom unsigned, known]
  simp [follow, unsigned]

end Known

/-- Reading gives back every sentence from its tokens. -/
theorem read_tokens : (sentence : Sentence) → read none sentence.tokens = some sentence
  | ⟨⟨⟨⟨first :: run, tight⟩, factors⟩, terms⟩, sums⟩ =>
    read_lead (read_tokens ⟨⟨⟨⟨run, tight⟩, factors⟩, terms⟩, sums⟩) first
  | ⟨⟨⟨⟨[], ⟨⟨atom, f :: functions⟩, duals⟩⟩, factors⟩, terms⟩, sums⟩ =>
    read_trail (read_tokens ⟨⟨⟨⟨[], ⟨⟨atom, functions⟩, duals⟩⟩, factors⟩, terms⟩, sums⟩) f rfl
  | ⟨⟨⟨⟨[], ⟨⟨atom, []⟩, (o, ⟨run, primary⟩) :: duals⟩⟩, factors⟩, terms⟩, sums⟩ =>
    read_joinDual (read_tokens ⟨⟨⟨⟨run, ⟨primary, duals⟩⟩, factors⟩, terms⟩, sums⟩) atom o
  | ⟨⟨⟨⟨[], ⟨⟨atom, []⟩, []⟩⟩, (o, factor) :: factors⟩, terms⟩, sums⟩ =>
    read_joinFactor (read_tokens ⟨⟨⟨factor, factors⟩, terms⟩, sums⟩) atom o
  | ⟨⟨⟨⟨[], ⟨⟨atom, []⟩, []⟩⟩, []⟩, (s, term) :: terms⟩, sums⟩ =>
    read_joinTerm (read_tokens ⟨⟨term, terms⟩, sums⟩) atom s
  | ⟨⟨⟨⟨[], ⟨⟨atom, []⟩, []⟩⟩, []⟩, []⟩, ((), ⟨sum, unsigned⟩) :: sums⟩ =>
    read_joinSum (read_tokens ⟨sum, sums⟩) atom unsigned
  | ⟨⟨⟨⟨[], ⟨⟨atom, []⟩, []⟩⟩, []⟩, []⟩, []⟩ => read_none_cons atom []
termination_by sentence => sentence.tokens.length
decreasing_by
  all_goals
    simp [tokens, text, Sum.text, Term.text, Tight.text, Chain.text, Prefixed.text, Primary.text]
    try omega

/-- The grammar is unambiguous. -/
theorem tokens_injective : Function.Injective Sentence.tokens := by
  intro first second same
  have read := read_tokens first
  rw [same, read_tokens second] at read
  exact (Option.some.inj read).symm

end Sentence

end ScientificCalculator.Grammar
