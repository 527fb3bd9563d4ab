import BeamCalc.Evaluation
import BeamCalc.ParseError

/-!
# Reports

A calculation that may fail and that tells of its progress makes a `Report`: its result, or the
reason why there is none, and the events on the way. Reports are put together in sequence: the
events of the parts follow each other, and the first failure is the last part.
-/

set_option autoImplicit false
set_option relaxedAutoImplicit false

namespace BeamCalc

/-- Why a text has no value. -/
inductive Failure where
  | parse (error : ParseError)
  | evaluation (error : EvalError)
  deriving Repr, DecidableEq

/-- The wording of a failure. -/
def Failure.message : Failure → String
  | parse error => error.message
  | evaluation error => error.message

/-- A step of a calculation that is worth telling. -/
inductive Event where
  /-- The text was compiled to so many instructions. -/
  | parsed (text : String) (instructions : Nat)
  /-- A name without a value counts as zero. -/
  | unresolved (notice : Notice)
  /-- A program of so many instructions has the value. -/
  | evaluated (instructions : Nat) (value : Float)
  deriving Repr, DecidableEq

/-- The notice that an event gives. -/
def Event.notice? : Event → Option Notice
  | unresolved notice => some notice
  | _ => none

/-- A result, or the reason why there is none, and the events on the way. -/
structure Report (result : Type) where
  result : Except Failure result
  events : List Event

namespace Report

variable {first second : Type}

/-- A result that needs no step. -/
protected def pure (result : first) : Report first :=
  ⟨.ok result, []⟩

/-- A report followed by one that uses its result. -/
protected def bind (report : Report first) (next : first → Report second) : Report second :=
  match report.result with
  | .error failure => ⟨.error failure, report.events⟩
  | .ok result => ⟨(next result).result, report.events ++ (next result).events⟩

instance : Monad Report where
  pure := Report.pure
  bind := Report.bind

/-- The notices among the events of a report, in order. -/
def notices (report : Report first) : List Notice :=
  report.events.filterMap Event.notice?

end Report

end BeamCalc
