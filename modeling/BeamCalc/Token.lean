import BeamCalc.Number.Writing

/-!
# Tokens

The words of an expression: numbers, names and marks. A sign is never part of a number token, so
`2-3` is three tokens. A `PlacedToken` remembers the byte of the text at which it starts; positions
in error messages are such offsets.
-/

set_option autoImplicit false
set_option relaxedAutoImplicit false

namespace BeamCalc

/-- The single characters that stand for themselves in an expression. -/
inductive Mark where
  | plus
  | minus
  | times
  | divide
  | power
  | openParen
  | closeParen
  | comma
  deriving Repr, DecidableEq

namespace Mark

/-- The character that a mark is written with. -/
def symbol : Mark → Char
  | plus => '+'
  | minus => '-'
  | times => '*'
  | divide => '/'
  | power => '^'
  | openParen => '('
  | closeParen => ')'
  | comma => ','

/-- The mark that a character stands for. -/
def ofSymbol? : Char → Option Mark
  | '+' => some plus
  | '-' => some minus
  | '*' => some times
  | '/' => some divide
  | '^' => some power
  | '(' => some openParen
  | ')' => some closeParen
  | ',' => some comma
  | _ => none

/-- Each mark is read from the one character that writes it. -/
theorem ofSymbol?_eq_some_iff {character : Char} {mark : Mark} :
    ofSymbol? character = some mark ↔ mark.symbol = character := by
  constructor
  · intro h
    unfold ofSymbol? at h
    split at h <;> simp_all [symbol] <;> subst h <;> rfl
  · rintro rfl
    cases mark <;> rfl

/-- Whether a mark stands between two operands. -/
def isOperator : Mark → Bool
  | plus | minus | times | divide | power => true
  | openParen | closeParen | comma => false

/-- The operators that join the terms of a sum. -/
def isAdditive : Mark → Bool
  | plus | minus => true
  | _ => false

/-- The operators that join the factors of a product. -/
def isMultiplicative : Mark → Bool
  | times | divide => true
  | _ => false

end Mark

/-- A word of an expression. -/
inductive Token where
  | number (value : Float)
  | name (text : String)
  | mark (sign : Mark)
  deriving Repr, DecidableEq

namespace Token

/-- The text of a token in messages. -/
def text : Token → String
  | number value => Number.plain value
  | name text => text
  | mark sign => String.singleton sign.symbol

/-- The operator symbol of a token that is one. -/
def operator? : Token → Option Char
  | mark sign => if sign.isOperator then some sign.symbol else none
  | _ => none

end Token

/-- A token and the byte offset at which it starts. -/
structure PlacedToken where
  token : Token
  position : Nat
  deriving Repr, DecidableEq

end BeamCalc
