import BeamCalc.Bindings
import BeamCalc.Calculator
import BeamCalc.Text.Blank
import BeamCalc.Text.Cut

/-!
# Statements

A line of a script is an expression or assigns one to a name with `:=` or `=`. A text whose left
side is no name is an expression as a whole, which its sign of assignment then makes invalid. A
`Binding` is the assignment of a number, as it is given on the command line.
-/

set_option autoImplicit false
set_option relaxedAutoImplicit false

namespace BeamCalc

/-- An expression and the name that its value is assigned to, if there is one. -/
structure Statement where
  target : Option String
  expression : String
  deriving Repr, DecidableEq

namespace Statement

/-- The texts on both sides of the sign of assignment: the first `:=`, or the first `=` where there
is no `:=`. -/
def sides? (line : List Char) : Option (List Char × List Char) :=
  (Text.cut? ":=".toList line).or (Text.cut? "=".toList line)

/-- The statement that a line makes. -/
def ofLine (line : String) : Statement :=
  match sides? line.toList with
  | some (left, right) =>
    let target := Text.trim left
    if isName target then ⟨some (String.ofList target), String.ofList (Text.trim right)⟩
    else ⟨none, line⟩
  | none => ⟨none, line⟩

end Statement

/-- What a calculator shows of a statement. -/
inductive Task where
  /-- The value, which is bound to the target. -/
  | value
  /-- The program, without evaluating it. -/
  | program
  deriving Repr, DecidableEq

/-- Runs a statement under a task. The text of an assignment begins with its target; the text of a
value begins with the expression if `echo` asks for that. Only the value of an assignment changes
the bindings. -/
def Statement.run (statement : Statement) (calculator : Calculator) (task : Task) (echo : Bool)
    (bindings : Bindings) : Report (String × Bindings) := do
  let program ← calculator.compile statement.expression
  match task with
  | .program =>
    match statement.target with
    | some name => return (s!"{name} = {program.text}", bindings)
    | none => return (program.text, bindings)
  | .value =>
    let value ← calculator.evaluate bindings.get? program
    let text := Number.report value
    match statement.target with
    | some name => return (s!"{name} = {text}", bindings.insert name value)
    | none => return (if echo then s!"{statement.expression} = {text}" else text, bindings)

/-- Why a text binds no variable. -/
inductive BindingError where
  /-- There is no `=` in the text. -/
  | noAssignment (text : String)
  /-- The text before the `=` is no name. -/
  | invalidName (name : String)
  /-- The text after the `=` is no number. -/
  | invalidNumber (value : String)
  deriving Repr, DecidableEq

/-- The wording of a binding error. -/
def BindingError.message : BindingError → String
  | noAssignment text => s!"expected NAME=VALUE, found '{text}'"
  | invalidName name => s!"'{name}' is not a valid variable name"
  | invalidNumber value => s!"'{value}' is not a number"

/-- The name and the number of a binding, such as `k1=1d-2`. Blanks around both are passed over; an
error shows the name without them, the number as it was written. -/
def readBinding (text : String) : Except BindingError (String × Float) :=
  match Text.cut? "=".toList text.toList with
  | none => .error (.noAssignment text)
  | some (left, right) =>
    let name := Text.trim left
    if isName name then
      match Number.read? (Text.trim right) with
      | some value => .ok (String.ofList name, value)
      | none => .error (.invalidNumber (String.ofList right))
    else .error (.invalidName (String.ofList name))

end BeamCalc
