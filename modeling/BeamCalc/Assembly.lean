import BeamCalc.Instruction
import BeamCalc.ParseError
import BeamCalc.Vocabulary

/-!
# Programs under construction

An `Assembly` is what the rules of the grammar share while they compile an expression: the
vocabulary that decides how many arguments a call has, where the text ends, how many nesting levels
are open, and the instructions so far. At most `nestingLimit` levels may be open at once.
-/

set_option autoImplicit false
set_option relaxedAutoImplicit false

namespace BeamCalc

/-- The number of nesting levels that an expression may have. -/
def nestingLimit : Nat := 256

/-- A program under construction. The instruction emitted last comes first. -/
structure Assembly where
  vocabulary : Vocabulary
  textEnd : Nat
  depth : Nat := 0
  emitted : List Instruction := []

namespace Assembly

/-- One nesting level more, which the token at `position` opens. -/
def descend (assembly : Assembly) (position : Nat) : Except ParseError Assembly :=
  if nestingLimit ≤ assembly.depth then .error ⟨.nestingTooDeep nestingLimit, position⟩
  else .ok { assembly with depth := assembly.depth + 1 }

/-- One nesting level less. Where none is open nothing changes. -/
def ascend (assembly : Assembly) : Assembly :=
  { assembly with depth := assembly.depth - 1 }

/-- One instruction more. -/
def emit (assembly : Assembly) (instruction : Instruction) : Assembly :=
  { assembly with emitted := instruction :: assembly.emitted }

/-- The program of the instructions so far. -/
def program (assembly : Assembly) : Program :=
  ⟨assembly.emitted.reverse⟩

/-- An emitted instruction is the last of the program. -/
@[simp] theorem program_emit (assembly : Assembly) (instruction : Instruction) :
    (assembly.emit instruction).program.instructions =
      assembly.program.instructions ++ [instruction] := by
  simp [emit, program]

/-- Opening a nesting level emits nothing. -/
theorem program_of_descend {assembly deeper : Assembly} {position : Nat}
    (h : assembly.descend position = .ok deeper) : deeper.program = assembly.program := by
  unfold descend at h
  split at h
  · simp at h
  · obtain rfl := Except.ok.inj h
    rfl

/-- A level that was opened may be left again. -/
theorem ascend_of_descend {assembly deeper : Assembly} {position : Nat}
    (h : assembly.descend position = .ok deeper) : deeper.ascend = assembly := by
  unfold descend at h
  split at h
  · simp at h
  · obtain rfl := Except.ok.inj h
    rfl

end Assembly

end BeamCalc
