/-!
# Parse errors

Why a text is no expression. Every cause but the end of the text is located at the byte where the
offending character, token or bracket starts; `message` words the cause for the user.
-/

set_option autoImplicit false
set_option relaxedAutoImplicit false

namespace BeamCalc

/-- What is wrong with a text that is no expression. -/
inductive ParseFault where
  /-- There is no token at all. -/
  | emptyInput
  /-- The text `lexeme` begins no token. -/
  | unexpectedCharacter (lexeme : String)
  /-- The token `lexeme` stands where an operand has to begin. -/
  | unexpectedToken (lexeme : String)
  /-- The text ends where an operand has to begin. -/
  | unexpectedEnd
  /-- The bracket opened at the position is never closed. -/
  | unclosedParen
  /-- The expression is complete before the token `lexeme`. -/
  | trailingTokens (lexeme : String)
  /-- The call of `name` has `found` arguments instead of `expected`. -/
  | argumentCount (name : String) (expected found : Nat)
  /-- The position opens one nesting level more than the `limit` admits. -/
  | nestingTooDeep (limit : Nat)
  deriving Repr, DecidableEq

/-- What is wrong with a text, and the byte offset where that shows. -/
structure ParseError where
  fault : ParseFault
  position : Nat
  deriving Repr, DecidableEq

/-- The wording of a fault. -/
def ParseFault.message : ParseFault → String
  | emptyInput => "Empty expression."
  | unexpectedCharacter lexeme => s!"Unexpected character '{lexeme}'."
  | unexpectedToken lexeme => s!"Unexpected token '{lexeme}'."
  | unexpectedEnd => "Unexpected end of input."
  | unclosedParen => "Expected closing parenthesis ')' for the '(' opened here."
  | trailingTokens lexeme => s!"Extra tokens after expression, starting at '{lexeme}'."
  | argumentCount name expected found =>
    s!"Function '{name}' takes {expected} argument(s), found {found}."
  | nestingTooDeep limit => s!"Expression nested deeper than {limit} levels."

/-- The message for the user, which begins with the position. -/
def ParseError.message (error : ParseError) : String :=
  s!"Error at position {error.position}: {error.fault.message}"

end BeamCalc
