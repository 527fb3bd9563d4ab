import BeamCalc.Number.Decimal

/-!
# The shortest decimal that reads back

Of all decimals that round to a given binary64 magnitude, `shortest` takes one of the fewest
digits, and of these the nearest to the magnitude; an exact tie goes to the larger one. Every
magnitude has an exact decimal expansion, so the only candidates with a given number of digits are
that expansion cut there and the next larger decimal of that many digits.
-/

set_option autoImplicit false
set_option relaxedAutoImplicit false

namespace BeamCalc.Number

/-- The exact decimal expansion of a finite pattern. Below one, each halving of the spacing takes
one more decimal place, with a factor of five. -/
def exactDecimal (pattern : Nat) : Decimal :=
  let doublings := Magnitude.doublings pattern
  if doublings ≤ 1074 then
    ⟨Magnitude.significand pattern * Nat.pow 5 (1074 - doublings), doublings - 1074⟩
  else ⟨Magnitude.significand pattern * Nat.pow 2 (doublings - 1074), 0⟩

/-- The decimal that rounds to a pattern, and is nearest to `exact` among the two neighbours that
have `dropped` digits less; none if neither rounds to it. -/
def neighbour? (pattern : Nat) (exact : Decimal) (dropped : Nat) : Option Decimal :=
  let scale := Nat.pow 10 dropped
  let exponent := exact.exponent + dropped
  let below := Decimal.reduced ⟨exact.digits / scale, exponent⟩
  let above := Decimal.reduced ⟨exact.digits / scale + 1, exponent⟩
  match below.nearest == pattern, above.nearest == pattern with
  | true, true => if 2 * (exact.digits % scale) < scale then some below else some above
  | true, false => some below
  | false, true => some above
  | false, false => none

/-- The decimal of fewest digits that rounds to a finite pattern. Seventeen digits always suffice;
the exact expansion closes the definition. -/
def shortest (pattern : Nat) : Decimal :=
  let exact := exactDecimal pattern
  let length := (Decimal.digitText exact.digits).length
  ((List.range' 1 17).findSome? fun count ↦ neighbour? pattern exact (length - count)).getD
    exact.reduced

end BeamCalc.Number
