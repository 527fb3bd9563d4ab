import BeamCalc.Number.Shortest
import BeamCalc.Number.Reading

/-!
# Writing numbers

Three texts of a binary64 number. `plain` is the shortest decimal that reads back, written
positionally. `report` is the text of a result: it shows by a `.0` that a whole number below 10¹⁶
is a real number. `journal` is the text in the journal of events, which writes very large and very
small numbers with an exponent.
-/

set_option autoImplicit false
set_option relaxedAutoImplicit false

namespace BeamCalc.Number

/-- Whether the sign bit of a number is set. -/
def isNegative (value : Float) : Bool :=
  Nat.pow 2 63 ≤ value.toBits.toNat

/-- The pattern of a number's magnitude. -/
def patternOf (value : Float) : Nat :=
  value.toBits.toNat % Nat.pow 2 63

/-- The text of a number whose magnitude is written by `magnitude` when it is finite. -/
def signedText (magnitude : Nat → List Char) (value : Float) : String :=
  let pattern := patternOf value
  if Magnitude.infinity < pattern then "NaN"
  else
    let digits := if pattern = Magnitude.infinity then "inf".toList else magnitude pattern
    String.ofList (if isNegative value then '-' :: digits else digits)

/-- The shortest decimal that reads back as the number, written positionally. Negative numbers, and
zero among them, have a minus sign; infinities are `inf` and `-inf`, what is no number is `NaN`. -/
def plain (value : Float) : String :=
  signedText (fun pattern ↦ (shortest pattern).text) value

/-- Whether a finite pattern is a whole number below 10¹⁶. -/
def isShortInteger (pattern : Nat) : Bool :=
  Magnitude.units pattern % Magnitude.one = 0
    && Magnitude.units pattern < Nat.pow 10 16 * Magnitude.one

/-- The text of a result: a whole number below 10¹⁶ has one decimal place, every other number is
written as by `plain`. -/
def report (value : Float) : String :=
  signedText
    (fun pattern ↦
      let digits := (shortest pattern).text
      if isShortInteger pattern then digits ++ ".0".toList else digits)
    value

/-- A decimal with one digit before the point and its exponent of ten after an `e`. -/
def exponentText (decimal : Decimal) : List Char :=
  let digits := Decimal.digitText decimal.reduced.digits
  let mantissa :=
    match digits with
    | [] => []
    | [lead] => [lead]
    | lead :: fraction => lead :: '.' :: fraction
  mantissa ++ 'e' :: (toString (decimal.reduced.exponent + (digits.length - 1))).toList

/-- Whether a finite pattern is written with an exponent in the journal: from 10¹⁶ on, and below
10⁻⁴ unless it is zero. -/
def isExtreme (pattern : Nat) : Bool :=
  Nat.pow 10 16 * Magnitude.one ≤ Magnitude.units pattern
    || (Magnitude.units pattern != 0 && Magnitude.units pattern * Nat.pow 10 4 < Magnitude.one)

/-- The text of a number in the journal: extreme numbers with an exponent, whole ones with one
decimal place. -/
def journal (value : Float) : String :=
  signedText
    (fun pattern ↦
      let decimal := shortest pattern
      if isExtreme pattern then exponentText decimal
      else if isShortInteger pattern then decimal.text ++ ".0".toList
      else decimal.text)
    value

end BeamCalc.Number
