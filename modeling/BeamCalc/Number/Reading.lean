import BeamCalc.Number.Decimal

/-!
# Reading numbers

A number is written as an optional sign and either a numeral or one of the words `inf`, `infinity`
and `nan` in any case. A numeral has digits before or after a point and may end with an exponent,
whose mark is one of `e`, `E`, `d`, `D`. `read?` gives the binary64 number nearest to what is
written.
-/

set_option autoImplicit false
set_option relaxedAutoImplicit false

namespace BeamCalc.Number

/-- The binary64 number of a sign and a pattern. -/
def ofPattern (negative : Bool) (pattern : Nat) : Float :=
  Float.ofBits (UInt64.ofNat (if negative then Nat.pow 2 63 + pattern else pattern))

/-- The value of an ASCII digit. -/
def digitValue (digit : Char) : Nat :=
  digit.toNat - '0'.toNat

/-- The natural number that a list of digits writes. -/
def naturalOf (digits : List Char) : Nat :=
  digits.foldl (fun value digit ↦ 10 * value + digitValue digit) 0

/-- The size of a written exponent. It stops growing once it has reached 65536: from there on only a
numeral of as many digits could still be in the range of the format. -/
def exponentOf (digits : List Char) : Nat :=
  digits.foldl
    (fun value digit ↦ if value < 65536 then 10 * value + digitValue digit else value) 0

/-- The letters that begin an exponent. -/
def isExponentMark (letter : Char) : Bool :=
  letter == 'e' || letter == 'E' || letter == 'd' || letter == 'D'

/-- A sign at the beginning of a text, `true` for a minus, and the text after it; a text without
one counts as positive. -/
def takeSign : (text : List Char) → Bool × List Char
  | '-' :: rest => (true, rest)
  | '+' :: rest => (false, rest)
  | text => (false, text)

/-- The digits at the beginning of a text and the text after them. -/
def takeDigits (text : List Char) : List Char × List Char :=
  (text.takeWhile Char.isDigit, text.dropWhile Char.isDigit)

/-- The digits before and after the point at the beginning of a text, and the text after them. -/
def takeMantissa (text : List Char) : List Char × List Char × List Char :=
  let (whole, rest) := takeDigits text
  match rest with
  | '.' :: rest =>
    let (fraction, rest) := takeDigits rest
    (whole, fraction, rest)
  | rest => (whole, [], rest)

/-- The exponent that makes up a whole text; an empty text is the exponent zero. -/
def exponent? : (text : List Char) → Option Int
  | [] => some 0
  | mark :: rest =>
    if isExponentMark mark then
      let (negative, digits) := takeSign rest
      if digits ≠ [] ∧ digits.all Char.isDigit then
        some (if negative then -(exponentOf digits : Int) else exponentOf digits)
      else none
    else none

/-- The decimal that a numeral writes. -/
def decimal? (text : List Char) : Option Decimal :=
  let (whole, fraction, rest) := takeMantissa text
  if whole = [] ∧ fraction = [] then none
  else (exponent? rest).map fun exponent ↦
    ⟨naturalOf (whole ++ fraction), exponent - fraction.length⟩

/-- The words for numbers that no numeral writes. -/
def word? (text : List Char) : Option Nat :=
  let lower := text.map Char.toLower
  if lower = "inf".toList ∨ lower = "infinity".toList then some Magnitude.infinity
  else if lower = "nan".toList then some (Magnitude.infinity + Magnitude.fractionSize / 2)
  else none

/-- The number that a text writes, signs and words included. -/
def read? (text : List Char) : Option Float :=
  let (negative, rest) := takeSign text
  match decimal? rest with
  | some decimal => some (ofPattern negative decimal.nearest)
  | none => (word? rest).map (ofPattern negative)

end BeamCalc.Number
