import BeamCalc.Instruction
import BeamCalc.Vocabulary

/-!
# Evaluating programs

A program is evaluated from its last instruction to its first: the operation at the end asks for
operands, and each instruction before it either answers or asks for more. `Pending` is an operation
that waits for an operand; the right operand of two comes first. What a run does besides answering,
asking for variables and giving notice of names that have no value, is recorded in order.

Well-formed or not, every list of instructions has an `Outcome`.
-/

set_option autoImplicit false
set_option relaxedAutoImplicit false

namespace BeamCalc

/-- What becomes of a name that is neither a constant nor a variable: under a strict policy it is
an error, otherwise it counts as zero, with a notice if the policy asks for one. -/
structure Policy where
  strict : Bool := false
  notices : Bool := true
  deriving Repr, DecidableEq

/-- Notice that a name without a value counts as zero. -/
structure Notice where
  name : String
  deriving Repr, DecidableEq

/-- The text of a notice. -/
def Notice.message (notice : Notice) : String :=
  s!"variable \"{notice.name}\" uninitialized, treating as 0.0"

/-- Why a program has no value. -/
inductive EvalError where
  /-- A name has no value under a strict policy. -/
  | undefinedVariable (name : String)
  /-- The vocabulary has no such operator. -/
  | unknownOperator (symbol : Char)
  /-- The vocabulary has no such function. -/
  | unknownFunction (name : String)
  /-- The program begins too late: an operation still waits for an operand. -/
  | missingOperand
  /-- The program begins too early: `count` instructions stand before its value. -/
  | unusedInstructions (count : Nat)
  deriving Repr, DecidableEq

/-- The wording of an evaluation error. -/
def EvalError.message : EvalError → String
  | undefinedVariable name => s!"Undefined variable '{name}'."
  | unknownOperator symbol => s!"Unknown operator '{symbol}'."
  | unknownFunction name => s!"Unknown function '{name}'."
  | missingOperand => "Instruction sequence ended while an operand was expected."
  | unusedInstructions count =>
    s!"Instruction sequence has {count} instruction(s) left after the result."

/-- What a run does besides answering. -/
inductive Effect where
  /-- It asks for the value of a variable. -/
  | query (name : String)
  /-- It gives notice. -/
  | notice (notice : Notice)
  deriving Repr, DecidableEq

/-- The end of a run and what it did on the way, in order. -/
structure Outcome where
  result : Except EvalError Float
  effects : List Effect

namespace Outcome

/-- The outcome of a run that first did `effects`. -/
def after (effects : List Effect) (outcome : Outcome) : Outcome :=
  { outcome with effects := effects ++ outcome.effects }

/-- The notices of a run, in order. -/
def notices (outcome : Outcome) : List Notice :=
  outcome.effects.filterMap fun
    | .notice notice => some notice
    | .query _ => none

/-- The variables that a run asked for, in order. -/
def queries (outcome : Outcome) : List String :=
  outcome.effects.filterMap fun
    | .query name => some name
    | .notice _ => none

@[simp] theorem result_after (effects : List Effect) (outcome : Outcome) :
    (outcome.after effects).result = outcome.result := rfl

@[simp] theorem effects_after (effects : List Effect) (outcome : Outcome) :
    (outcome.after effects).effects = effects ++ outcome.effects := rfl

end Outcome

/-- An operation that waits for an operand. -/
inductive Pending where
  /-- An operation on one operand. -/
  | unary (operation : Float → Float)
  /-- An operation on two operands that has neither. -/
  | binary (operation : Float → Float → Float)
  /-- An operation on two operands that has the right one, `second`. -/
  | binaryWith (operation : Float → Float → Float) (second : Float)

/-- Hands a value to the innermost pending operation, and what that answers to the next, until one
waits for another operand or the value of the whole program is there. -/
def Pending.supply (value : Float) : List Pending → Float ⊕ List Pending
  | [] => .inl value
  | .unary operation :: others => supply (operation value) others
  | .binary operation :: others => .inr (.binaryWith operation value :: others)
  | .binaryWith operation second :: others => supply (operation value second) others

/-- What evaluation takes as given: the meanings of names, the policy on names that have none, and
the values of variables. -/
structure Setting where
  vocabulary : Vocabulary
  policy : Policy
  values : Table String Float

namespace Setting

/-- The value of a name. Constants come before variables, which are not asked for then. -/
def resolve (setting : Setting) (name : String) : Outcome :=
  match setting.vocabulary.constant name with
  | some value => ⟨.ok value, []⟩
  | none =>
    match setting.values name with
    | some value => ⟨.ok value, [.query name]⟩
    | none =>
      if setting.policy.strict then ⟨.error (.undefinedVariable name), [.query name]⟩
      else if setting.policy.notices then ⟨.ok 0, [.query name, .notice ⟨name⟩]⟩
      else ⟨.ok 0, [.query name]⟩

/-- What an instruction contributes to a run. -/
inductive Contribution where
  /-- A value, or the reason why there is none. -/
  | answer (outcome : Outcome)
  /-- An operation that waits for its operands. -/
  | operation (pending : Pending)

/-- The contribution of one instruction. A function of one argument is looked up before one of
two. -/
def contribution (setting : Setting) : Instruction → Contribution
  | .number value => .answer ⟨.ok value, []⟩
  | .load name => .answer (setting.resolve name)
  | .negate => .operation (.unary Float.neg)
  | .operator symbol =>
    match setting.vocabulary.operator symbol with
    | some meaning => .operation (.binary meaning)
    | none => .answer ⟨.error (.unknownOperator symbol), []⟩
  | .function name =>
    match setting.vocabulary.unary name with
    | some meaning => .operation (.unary meaning)
    | none =>
      match setting.vocabulary.binary name with
      | some meaning => .operation (.binary meaning)
      | none => .answer ⟨.error (.unknownFunction name), []⟩

/-- Runs instructions, the last of the program first, while the operations `pending` wait. -/
def run (setting : Setting) (pending : List Pending) : (backward : List Instruction) → Outcome
  | [] => ⟨.error .missingOperand, []⟩
  | instruction :: earlier =>
    match setting.contribution instruction with
    | .operation operation => run setting (operation :: pending) earlier
    | .answer ⟨.error error, effects⟩ => ⟨.error error, effects⟩
    | .answer ⟨.ok value, effects⟩ =>
      match Pending.supply value pending with
      | .inr pending => (run setting pending earlier).after effects
      | .inl value =>
        if earlier.isEmpty then ⟨.ok value, effects⟩
        else ⟨.error (.unusedInstructions earlier.length), effects⟩

end Setting

/-- Evaluates a program. -/
def Program.evaluate (program : Program) (setting : Setting) : Outcome :=
  setting.run [] program.instructions.reverse

end BeamCalc
