import BeamCalc.Grammar
import BeamCalc.Report

/-!
# Calculators

A `Calculator` is a vocabulary with a policy on names that have no value. It compiles texts to
programs, evaluates programs over the values of variables, and does both in one.
-/

set_option autoImplicit false
set_option relaxedAutoImplicit false

namespace BeamCalc

/-- A vocabulary and a policy on names that it and the variables give no value. -/
structure Calculator where
  vocabulary : Vocabulary := .standard
  policy : Policy := {}

namespace Calculator

/-- Compiles a text. -/
def compile (calculator : Calculator) (text : String) : Report Program :=
  match Program.ofText calculator.vocabulary text with
  | .ok program => ⟨.ok program, [.parsed text program.instructions.length]⟩
  | .error error => ⟨.error (.parse error), []⟩

/-- Evaluates a program. -/
def evaluate (calculator : Calculator) (values : Table String Float) (program : Program) :
    Report Float :=
  let outcome := program.evaluate { calculator with values }
  let notices := outcome.notices.map Event.unresolved
  match outcome.result with
  | .ok value => ⟨.ok value, notices ++ [.evaluated program.instructions.length value]⟩
  | .error error => ⟨.error (.evaluation error), notices⟩

/-- Compiles a text and evaluates the program. -/
def calculate (calculator : Calculator) (values : Table String Float) (text : String) :
    Report Float := do
  let program ← calculator.compile text
  calculator.evaluate values program

end Calculator

end BeamCalc
