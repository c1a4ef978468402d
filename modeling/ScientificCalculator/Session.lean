import ScientificCalculator.Expression.Evaluation
import ScientificCalculator.Expression.Key

/-!
A series of calculations that share a memory, the last answer, an angle unit and a width. Only a
calculation that succeeds, its display included, changes the registers.
-/

namespace ScientificCalculator

structure Session where
  registers : Registers
  unit : AngleUnit
  width : Nat
  deriving DecidableEq

structure Calculation where
  value : Decimal
  display : List Char
  operation : Option MemoryOperation
  ignored : List String
  deriving DecidableEq

def MemoryOperation.apply (memory value : Decimal) : MemoryOperation → Decimal
  | store => value
  | add => memory + value
  | subtract => memory - value
  | clear => Decimal.zero

def Registers.record (registers : Registers) (operation : Option MemoryOperation)
    (value : Decimal) : Registers :=
  { memory := (operation.map (MemoryOperation.apply registers.memory value)).getD registers.memory
    answer := value }

namespace Session

def start (unit : AngleUnit) (width : Nat) : Session :=
  ⟨⟨Decimal.zero, Decimal.zero⟩, unit, width⟩

def initial : Session := start .degrees defaultWidth

/-- A calculation as a program on the session, which keeps what is changed before a failure. -/
def calculating (identifiers : List String) : ExceptT Error (StateM Session) Calculation := do
  let session ← get
  let (operation, tokens) := splitMemoryOperation (assemble session.registers identifiers)
  let (value, display) ← MonadExcept.ofExcept (evaluateWithin session.unit session.width tokens)
  modify fun session => { session with registers := session.registers.record operation value }
  return ⟨value, display, operation, ignoredIdentifiers identifiers⟩

/-- The result of a calculation, and the session that it leaves whether or not it succeeds. -/
def calculate (session : Session) (identifiers : List String) :
    Except Error Calculation × Session :=
  (calculating identifiers).run.run session

def switchUnit (session : Session) : Session := { session with unit := session.unit.other }

def setUnit (session : Session) (unit : AngleUnit) : Session := { session with unit := unit }

def setWidth (session : Session) (width : Nat) : Session := { session with width := width }

def clearMemory (session : Session) : Session :=
  { session with registers := { session.registers with memory := Decimal.zero } }

/-- Shows whether the memory holds a number other than zero, and the angle unit. -/
def indicator (session : Session) : String :=
  (if session.registers.memory.IsZero then " " else "M") ++ " " ++ session.unit.name

inductive Request where
  | calculate (identifiers : List String)
  | switchUnit
  | setUnit (unit : AngleUnit)
  | setWidth (width : Nat)
  | clearMemory

/-- A calculation whose identifiers are sent as one text. -/
def Request.sent (keys : String) : Request := .calculate (splitIdentifiers keys)

/-- The session after a request. -/
def after (session : Session) : Request → Session
  | .calculate identifiers => (session.calculate identifiers).2
  | .switchUnit => session.switchUnit
  | .setUnit unit => session.setUnit unit
  | .setWidth width => session.setWidth width
  | .clearMemory => session.clearMemory

/-- A calculation that succeeds records its value; one that fails changes nothing. -/
theorem calculate_eq (session : Session) (identifiers : List String) :
    session.calculate identifiers =
      match evaluateWithin session.unit session.width
        (splitMemoryOperation (assemble session.registers identifiers)).2 with
      | .ok (value, display) =>
        (.ok ⟨value, display, (splitMemoryOperation (assemble session.registers identifiers)).1,
            ignoredIdentifiers identifiers⟩,
          { session with
            registers := session.registers.record
              (splitMemoryOperation (assemble session.registers identifiers)).1 value })
      | .error error => (.error error, session) := by
  have run : session.calculate identifiers =
      ((MonadExcept.ofExcept (evaluateWithin session.unit session.width
        (splitMemoryOperation (assemble session.registers identifiers)).2) :
          ExceptT Error (StateM Session) (Decimal × List Char)) >>= _).run.run session := rfl
  rw [run]
  cases evaluateWithin session.unit session.width
      (splitMemoryOperation (assemble session.registers identifiers)).2 with
  | ok result => rfl
  | error error => rfl

theorem calculate_of_error {session : Session} {identifiers : List String} {error : Error}
    (failed : (session.calculate identifiers).1 = .error error) :
    session.calculate identifiers = (.error error, session) := by
  rw [calculate_eq] at failed ⊢
  split at failed
  · cases failed
  · cases failed
    rfl

end Session

end ScientificCalculator
