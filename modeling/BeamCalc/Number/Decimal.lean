import BeamCalc.Number.Magnitude

/-!
# Decimal numbers

A `Decimal` is a natural number times a power of ten. `Decimal.nearest` rounds one to the pattern
of a binary64 magnitude, correctly for every number of digits and every exponent, and
`Decimal.text` writes one positionally, with as many zeros as that takes.
-/

set_option autoImplicit false
set_option relaxedAutoImplicit false

namespace BeamCalc.Number

/-- The number `digits` · 10 ^ `exponent`. -/
structure Decimal where
  digits : Nat
  exponent : Int
  deriving Repr, DecidableEq

namespace Decimal

/-- The pattern of the binary64 magnitude nearest to a decimal. From 10³¹⁰ on, and below 10⁻³³¹,
the answer needs no arithmetic: a positive number has at least one and at most
`digits.log2 + 1` decimal digits. -/
def nearest (decimal : Decimal) : Nat :=
  match decimal.digits, decimal.exponent with
  | 0, _ => 0
  | digits, .ofNat exponent =>
    if 310 ≤ exponent then Magnitude.infinity
    else Magnitude.nearest (digits * Nat.pow 10 exponent * Magnitude.one) 1
  | digits, .negSucc places =>
    if digits.log2 + 331 ≤ places then 0
    else Magnitude.nearest (digits * Magnitude.one) (Nat.pow 10 (places + 1))

/-- The same number without zeros at the end of its digits. Zero has the exponent zero. -/
def reduced (decimal : Decimal) : Decimal :=
  if decimal.digits = 0 then ⟨0, 0⟩
  else if decimal.digits % 10 = 0 then reduced ⟨decimal.digits / 10, decimal.exponent + 1⟩
  else decimal
termination_by decimal.digits
decreasing_by omega

/-- The decimal digits of a natural number. -/
def digitText (number : Nat) : List Char :=
  Nat.toDigits 10 number

/-- The positional text of a decimal: no exponent, a digit on each side of a point, no point in a
text without a fraction. -/
def text (decimal : Decimal) : List Char :=
  match decimal.exponent with
  | .ofNat zeros => digitText decimal.digits ++ List.replicate zeros '0'
  | .negSucc places =>
    let digits := digitText decimal.digits
    let padded := List.replicate (places + 2 - digits.length) '0' ++ digits
    let whole := padded.length - (places + 1)
    padded.take whole ++ '.' :: padded.drop whole

end Decimal

end BeamCalc.Number
