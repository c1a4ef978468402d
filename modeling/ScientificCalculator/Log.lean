import ScientificCalculator.Decimal.Digits

/-!
The level of the log, given by name or by number, and the start of the log. A level is read before
anything else, and the log can be started only once.
-/

namespace ScientificCalculator

inductive LogLevel where
  | off
  | error
  | warn
  | info
  | debug
  | trace
  deriving DecidableEq

inductive LogFault where
  | emptyLevel
  | unknownLevel (text : String)
  | alreadyStarted
  deriving DecidableEq

def LogFault.message : LogFault → String
  | emptyLevel => "niveau de journal invalide : niveau vide"
  | unknownLevel text => "niveau de journal invalide : '" ++ text ++ "' non reconnu"
  | alreadyStarted =>
    "abonné de journal déjà installé : a global default trace dispatcher has already been set"

namespace LogLevel

/-- From the quietest level to the most talkative one, numbered from zero. -/
def all : List LogLevel := [off, error, warn, info, debug, trace]

def name : LogLevel → String
  | off => "off"
  | error => "error"
  | warn => "warn"
  | info => "info"
  | debug => "debug"
  | trace => "trace"

/-- A number is written in decimal digits, with or without a plus sign. -/
def number? (text : List Char) : Option Nat :=
  let digits := match text with
    | '+' :: rest => rest
    | text => text
  if digits ≠ [] ∧ Digits digits then some (digitsValue digits) else none

def ofNumber? (text : List Char) : Option LogLevel := (number? text).bind (all[·]?)

/-- Names are read in any mixture of ASCII cases. -/
def ofName? (text : List Char) : Option LogLevel :=
  all.find? fun level => level.name.toList = text.map Char.toLower

def parse (text : String) : Except LogFault LogLevel :=
  if text = "" then .error .emptyLevel
  else
    match (ofNumber? text.toList).or (ofName? text.toList) with
    | some level => .ok level
    | none => .error (.unknownLevel text)

end LogLevel

/-- Starts the log at a level, unless it was started before. -/
def startLog (started : Bool) (level : String) : Except LogFault LogLevel := do
  let parsed ← LogLevel.parse level
  if started then .error .alreadyStarted else return parsed

end ScientificCalculator
