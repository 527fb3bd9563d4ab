import BeamCalc.Number.Writing

/-!
# Instructions and programs

An expression is compiled to a `Program`, a list of instructions in postfix order: operands come
before the operation that uses them. A program knows its text and the names that its value depends
on.
-/

set_option autoImplicit false
set_option relaxedAutoImplicit false

namespace BeamCalc

/-- One step of a program. -/
inductive Instruction where
  /-- The number itself. -/
  | number (value : Float)
  /-- The value of a constant or a variable. -/
  | load (name : String)
  /-- An operator, applied to two operands. -/
  | operator (symbol : Char)
  /-- A function, applied to as many operands as it takes. -/
  | function (name : String)
  /-- The negation of one operand. -/
  | negate
  deriving Repr, DecidableEq

namespace Instruction

/-- The text of an instruction: its kind and, after a colon, what it holds, in angle brackets. -/
def text : Instruction → String
  | number value => s!"<number:{Number.plain value}>"
  | load name => s!"<ident:{name}>"
  | operator symbol => s!"<operator:{symbol}>"
  | function name => s!"<function:{name}>"
  | negate => "<unary_minus>"

/-- The name of a variable or constant that an instruction reads. -/
def reads? : Instruction → Option String
  | load name => some name
  | _ => none

end Instruction

/-- The instructions of an expression, in postfix order. -/
structure Program where
  instructions : List Instruction
  deriving Repr, DecidableEq

namespace Program

/-- The texts of the instructions with a blank between each two. -/
def text (program : Program) : String :=
  " ".intercalate (program.instructions.map Instruction.text)

/-- The names that a program reads, each once, in the order of their first occurrences. -/
def names (program : Program) : List String :=
  (program.instructions.filterMap Instruction.reads?).foldl
    (fun names name ↦ if name ∈ names then names else names ++ [name]) []

end Program

end BeamCalc
