import BeamCalc.Number.Numeral
import BeamCalc.ParseError
import BeamCalc.Text.Bytes
import BeamCalc.Token

/-!
# Scanning a text into tokens

`Token.scan` reads a text from left to right. Separators are passed over; at every other character
the longest lexeme that begins there is taken, which its first character classifies as a numeral,
a name or a mark. `Lexeme.append_of_first?` says that a lexeme is a non-empty beginning of the
text, so nothing of the text is lost and the scan ends.
-/

set_option autoImplicit false
set_option relaxedAutoImplicit false

namespace BeamCalc

/-- The characters that only separate tokens: space, tab, the two line ends and the form feed. -/
def isSeparator (character : Char) : Bool :=
  character == ' ' || character == '\t' || character == '\r' || character == '\n'
    || character == '\x0c'

/-- The characters that may follow the letter at the beginning of a name. -/
def isNameChar (character : Char) : Bool :=
  character.isAlphanum || character == '_' || character == '.' || character == '\x27'

/-- What stands at the beginning of a text: the characters taken from it, the text after them, and
the token that they write, unless they write none. -/
structure Lexeme where
  taken : List Char
  rest : List Char
  token : Option Token
  deriving Repr, DecidableEq

namespace Lexeme

/-- The longest lexeme at the beginning of a text that begins with no separator: a numeral, a
letter with the name characters after it, or a mark. -/
def first? : (text : List Char) → Option Lexeme
  | [] => none
  | first :: rest =>
    match Number.numeralSpan? (first :: rest) with
    | some (numeral, rest) => some ⟨numeral, rest, (Number.read? numeral).map Token.number⟩
    | none =>
      if first.isAlpha then
        let name := first :: rest.takeWhile isNameChar
        some ⟨name, rest.dropWhile isNameChar, some (.name (String.ofList name))⟩
      else (Mark.ofSymbol? first).map fun mark ↦ ⟨[first], rest, some (.mark mark)⟩

/-- A lexeme and the text after it make up the text, and a lexeme is not empty. -/
theorem append_of_first? {text : List Char} {lexeme : Lexeme} (h : first? text = some lexeme) :
    lexeme.taken ++ lexeme.rest = text ∧ lexeme.taken ≠ [] := by
  unfold first? at h
  split at h
  · simp at h
  · split at h
    · rename_i found
      obtain rfl := Option.some.inj h
      exact ⟨Number.append_of_numeralSpan? found, Number.ne_nil_of_numeralSpan? found⟩
    · split at h
      · obtain rfl := Option.some.inj h
        simp
      · obtain ⟨mark, -, rfl⟩ := Option.map_eq_some_iff.mp h
        simp

/-- What follows a lexeme is shorter than the text. -/
theorem length_rest_lt_of_first? {text : List Char} {lexeme : Lexeme}
    (h : first? text = some lexeme) : lexeme.rest.length < text.length := by
  obtain ⟨whole, nonempty⟩ := append_of_first? h
  have taken := List.length_pos_iff.mpr nonempty
  rw [← whole, List.length_append]
  omega

end Lexeme

/-- The tokens of a text that starts at byte `position`. The first character that begins no token
is an error, whatever follows it. -/
def Token.scan (position : Nat) (text : List Char) : Except ParseError (List PlacedToken) :=
  match text with
  | [] => .ok []
  | first :: rest =>
    if isSeparator first then scan (position + first.utf8Size) rest
    else
      match _found : Lexeme.first? (first :: rest) with
      | none => .error ⟨.unexpectedCharacter (String.singleton first), position⟩
      | some ⟨taken, _, none⟩ => .error ⟨.unexpectedCharacter (String.ofList taken), position⟩
      | some ⟨taken, rest, some token⟩ =>
        (scan (position + Text.byteLength taken) rest).map fun tokens ↦ ⟨token, position⟩ :: tokens
termination_by text.length
decreasing_by
  · exact Nat.lt_succ_self _
  · exact Lexeme.length_rest_lt_of_first? _found

/-- The tokens of a text with their byte offsets. -/
def Token.ofText (text : String) : Except ParseError (List PlacedToken) :=
  Token.scan 0 text.toList

/-- Whether a text is one name, up to separators around it. -/
def isName (text : List Char) : Bool :=
  match Token.scan 0 text with
  | .ok [⟨.name _, _⟩] => true
  | _ => false

end BeamCalc
