import BeamCalc.Number.Reading

/-!
# Log levels

A level is the severity of an event and the reach of a directive: what is set to a level shows the
events of this level and of all more severe ones. `ofText?_label` says that a level is read back
from its label.
-/

set_option autoImplicit false
set_option relaxedAutoImplicit false

namespace BeamCalc

/-- The severity of an event, and the reach of a directive. -/
inductive LogLevel where
  | off
  | error
  | warn
  | info
  | debug
  | trace
  deriving Repr, DecidableEq

namespace LogLevel

/-- The levels from showing nothing to showing all. -/
def all : List LogLevel :=
  [off, error, warn, info, debug, trace]

/-- The place of a level among all levels. -/
def rank : LogLevel → Nat
  | off => 0
  | error => 1
  | warn => 2
  | info => 3
  | debug => 4
  | trace => 5

/-- The name of a level in the journal. -/
def label : LogLevel → String
  | off => "OFF"
  | error => "ERROR"
  | warn => "WARN"
  | info => "INFO"
  | debug => "DEBUG"
  | trace => "TRACE"

/-- The level that the digits of a rank write, which a plus may precede. -/
def ofDigits? (text : List Char) : Option LogLevel :=
  let digits :=
    match text with
    | '+' :: digits => digits
    | digits => digits
  if digits ≠ [] ∧ digits.all Char.isDigit then all[Number.naturalOf digits]? else none

/-- The level with a label, in any case. -/
def ofLabel? (text : List Char) : Option LogLevel :=
  all.find? fun level ↦ level.label.toList.map Char.toLower = text.map Char.toLower

/-- The level that a text writes, as a rank or as a label. -/
def ofText? (text : List Char) : Option LogLevel :=
  ofDigits? text <|> ofLabel? text

/-- The list of all levels is in the order of the ranks. -/
theorem all_getElem?_rank (level : LogLevel) : all[level.rank]? = some level := by
  cases level <;> rfl

/-- A level is read back from its label. -/
theorem ofText?_label (level : LogLevel) : ofText? level.label.toList = some level := by
  cases level <;> decide +kernel

end LogLevel

end BeamCalc
