import BeamCalc.Assembly
import BeamCalc.Token.Scan

/-!
# The grammar of expressions

A sum joins products by `+` and `-`, a product joins powers by `*` and `/`, both from the left; a
power raises an operand to a power, so `^` joins from the right; an operand is a primary with at
most one minus before it. A primary is a number, a name, a call or a bracketed sum. A sign before
a primary belongs to a number that touches it.

Each rule takes the tokens from its beginning on, emits the instructions of what it reads and
leaves the rest. Brackets and the right side of `^` open a nesting level each. The rules end
because every call within a rule has fewer tokens, or the same tokens and a lower rule; to show
this, the result of a rule carries the proof that it has read something.
-/

set_option autoImplicit false
set_option relaxedAutoImplicit false

namespace BeamCalc.Grammar

/-- The tokens that a rule leaves, of which there are less than `bound`. -/
abbrev Rest (bound : Nat) := { rest : List PlacedToken // rest.length < bound }

/-- What a rule makes of fewer than `bound` + 1 tokens: the assembly with the instructions of what
it read, and the tokens after that. -/
abbrev Reading (bound : Nat) := Except ParseError (Assembly × Rest bound)

/-- Reads the number that touches the sign at `position`. -/
def signedNumber {bound : Nat} (assembly : Assembly) (sign : Mark) (position : Nat) :
    (tokens : List PlacedToken) → tokens.length ≤ bound → Reading bound
  | ⟨.number value, start⟩ :: rest, fits =>
    if start = position + 1 then
      let signed := if sign = .minus then -value else value
      .ok (assembly.emit (.number signed), ⟨rest, by simp at fits; omega⟩)
    else .error ⟨.unexpectedToken (String.singleton sign.symbol), position⟩
  | _, _ => .error ⟨.unexpectedToken (String.singleton sign.symbol), position⟩

/-- Reads the bracket that closes the one at `opening`. -/
def closingParen {bound : Nat} (opening : Nat) :
    Rest bound → Except ParseError (Rest bound)
  | ⟨⟨.mark .closeParen, _⟩ :: rest, fits⟩ => .ok ⟨rest, by simp at fits; omega⟩
  | _ => .error ⟨.unclosedParen, opening⟩

/-- Emits the call of the function named at `position`, after its arguments. -/
def emitCall (assembly : Assembly) (name : String) (position arguments : Nat) :
    Except ParseError Assembly :=
  let expected := assembly.vocabulary.arity name
  if arguments = expected then .ok (assembly.emit (.function name))
  else .error ⟨.argumentCount name expected arguments, position⟩

mutual

/-- Products joined by `+` and `-`. -/
def sum (assembly : Assembly) (tokens : List PlacedToken) : Reading tokens.length := do
  let (assembly, ⟨rest, shorter⟩) ← product assembly tokens
  sumTail assembly rest shorter
termination_by 7 * tokens.length + 5

/-- The further terms of a sum. -/
def sumTail {bound : Nat} (assembly : Assembly) (tokens : List PlacedToken)
    (fits : tokens.length < bound) : Reading bound :=
  match tokens with
  | ⟨.mark sign, position⟩ :: rest =>
    if sign.isAdditive then do
      let (assembly, ⟨rest, shorter⟩) ← product assembly rest
      sumTail (assembly.emit (.operator sign.symbol)) rest (by simp at fits; omega)
    else .ok (assembly, ⟨⟨.mark sign, position⟩ :: rest, fits⟩)
  | tokens => .ok (assembly, ⟨tokens, fits⟩)
termination_by 7 * tokens.length + 4
decreasing_by all_goals (simp only [List.length_cons]; omega)

/-- Powers joined by `*` and `/`. -/
def product (assembly : Assembly) (tokens : List PlacedToken) : Reading tokens.length := do
  let (assembly, ⟨rest, shorter⟩) ← power assembly tokens
  productTail assembly rest shorter
termination_by 7 * tokens.length + 3

/-- The further factors of a product. -/
def productTail {bound : Nat} (assembly : Assembly) (tokens : List PlacedToken)
    (fits : tokens.length < bound) : Reading bound :=
  match tokens with
  | ⟨.mark sign, position⟩ :: rest =>
    if sign.isMultiplicative then do
      let (assembly, ⟨rest, shorter⟩) ← power assembly rest
      productTail (assembly.emit (.operator sign.symbol)) rest (by simp at fits; omega)
    else .ok (assembly, ⟨⟨.mark sign, position⟩ :: rest, fits⟩)
  | tokens => .ok (assembly, ⟨tokens, fits⟩)
termination_by 7 * tokens.length + 2

/-- An operand, raised to a power when `^` follows. -/
def power (assembly : Assembly) (tokens : List PlacedToken) : Reading tokens.length := do
  let (assembly, left) ← operand assembly tokens
  match left with
  | ⟨⟨.mark .power, position⟩ :: rest, shorter⟩ => do
    have : rest.length < tokens.length := Nat.lt_of_succ_lt shorter
    let inner ← assembly.descend position
    let (inner, ⟨rest, _⟩) ← power inner rest
    return (inner.ascend.emit (.operator Mark.power.symbol), ⟨rest, by omega⟩)
  | left => return (assembly, left)
termination_by 7 * tokens.length + 2

/-- A primary with at most one minus before it. -/
def operand (assembly : Assembly) (tokens : List PlacedToken) : Reading tokens.length :=
  match tokens with
  | ⟨.mark .minus, _⟩ :: rest => do
    let (assembly, ⟨rest, shorter⟩) ← primary assembly rest
    return (assembly.emit .negate, ⟨rest, by simp; omega⟩)
  | tokens => primary assembly tokens
termination_by 7 * tokens.length + 1

/-- A number, a name, a call or a bracketed sum. -/
def primary (assembly : Assembly) (tokens : List PlacedToken) : Reading tokens.length :=
  match tokens with
  | [] => .error ⟨.unexpectedEnd, assembly.textEnd⟩
  | ⟨.number value, _⟩ :: rest => .ok (assembly.emit (.number value), ⟨rest, by simp⟩)
  | ⟨.name name, position⟩ :: ⟨.mark .openParen, opening⟩ :: rest => do
    let inner ← assembly.descend opening
    let (count, inner, ⟨rest, shorter⟩) ← arguments opening 1 inner rest (Nat.lt_succ_self _)
    let assembly ← emitCall inner.ascend name position count
    return (assembly, ⟨rest, by simp; omega⟩)
  | ⟨.name name, _⟩ :: rest => .ok (assembly.emit (.load name), ⟨rest, by simp⟩)
  | ⟨.mark .openParen, opening⟩ :: rest => do
    let inner ← assembly.descend opening
    let (inner, left) ← sum inner rest
    let ⟨rest, shorter⟩ ← closingParen opening left
    return (inner.ascend, ⟨rest, by simp; omega⟩)
  | ⟨.mark .plus, position⟩ :: rest => signedNumber assembly .plus position rest (by simp)
  | ⟨.mark .minus, position⟩ :: rest => signedNumber assembly .minus position rest (by simp)
  | ⟨token, position⟩ :: _ => .error ⟨.unexpectedToken token.text, position⟩
termination_by 7 * tokens.length + 0

/-- The arguments of a call up to its closing bracket, and their number; this is argument number
`count`. -/
def arguments {bound : Nat} (opening count : Nat) (assembly : Assembly)
    (tokens : List PlacedToken) (fits : tokens.length < bound) :
    Except ParseError (Nat × Assembly × Rest bound) := do
  let (assembly, left) ← sum assembly tokens
  match left with
  | ⟨⟨.mark .comma, _⟩ :: rest, shorter⟩ =>
    have : rest.length < tokens.length := Nat.lt_of_succ_lt shorter
    arguments opening (count + 1) assembly rest (by omega)
  | ⟨⟨.mark .closeParen, _⟩ :: rest, shorter⟩ =>
    return (count, assembly, ⟨rest, by simp at shorter; omega⟩)
  | _ => .error ⟨.unclosedParen, opening⟩
termination_by 7 * tokens.length + 6

end

end BeamCalc.Grammar

namespace BeamCalc

/-- The program of the expression that a list of tokens writes. The text of the tokens ends at byte
`textEnd`. -/
def Program.ofTokens (vocabulary : Vocabulary) (textEnd : Nat) (tokens : List PlacedToken) :
    Except ParseError Program :=
  if tokens.isEmpty then .error ⟨.emptyInput, textEnd⟩
  else do
    let (assembly, rest) ← Grammar.sum { vocabulary, textEnd } tokens
    match rest.val with
    | [] => return assembly.program
    | ⟨token, position⟩ :: _ => .error ⟨.trailingTokens token.text, position⟩

/-- The program of the expression that a text writes. -/
def Program.ofText (vocabulary : Vocabulary) (text : String) : Except ParseError Program := do
  let tokens ← Token.ofText text
  Program.ofTokens vocabulary text.utf8ByteSize tokens

end BeamCalc
