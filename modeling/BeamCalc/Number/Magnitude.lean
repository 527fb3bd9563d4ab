/-!
# Magnitudes of binary64 numbers

A non-negative binary64 number is named by its *pattern*, the 63 bits below the sign read as a
natural number. Every finite one is a whole number of *units* of 2⁻¹⁰⁷⁴, the least positive number
of the format, so comparing and rounding magnitudes is arithmetic of natural numbers: `units` gives
the size of a pattern in units and `nearest` the pattern that is nearest to a fraction of units.
-/

set_option autoImplicit false
set_option relaxedAutoImplicit false

namespace BeamCalc.Number.Magnitude

/-- The number of units in one. -/
def one : Nat := Nat.pow 2 1074

/-- The number of patterns that share one spacing: the field of the fraction has 52 bits. -/
def fractionSize : Nat := Nat.pow 2 52

/-- The pattern of infinity; larger patterns are not numbers. -/
def infinity : Nat := 2047 * fractionSize

/-- How often the spacing has doubled at a pattern. Patterns of the two lowest exponents count
units themselves; each further exponent doubles the spacing. -/
def doublings (pattern : Nat) : Nat :=
  pattern / fractionSize - 1

/-- The number of spacings from zero to a finite pattern. -/
def significand (pattern : Nat) : Nat :=
  if pattern < fractionSize then pattern else fractionSize + pattern % fractionSize

/-- The size of a finite pattern in units. -/
def units (pattern : Nat) : Nat :=
  significand pattern * Nat.pow 2 (doublings pattern)

/-- The whole number nearest to a quotient; of two equally near ones the even one. -/
def divideToEven (numerator denominator : Nat) : Nat :=
  let quotient := numerator / denominator
  let remainder := numerator % denominator
  if 2 * remainder < denominator then quotient
  else if denominator < 2 * remainder then quotient + 1
  else quotient + quotient % 2

/-- The pattern nearest to `numerator / denominator` units; of two equally near ones the even one.
The spacing doubles with every binary digit beyond 53, a significand that rounds up to the next
power of two carries into the exponent, and what would pass the largest finite pattern is
infinity. -/
def nearest (numerator denominator : Nat) : Nat :=
  let excess := (numerator / denominator).log2 - 52
  min infinity (excess * fractionSize + divideToEven numerator (denominator * Nat.pow 2 excess))

end BeamCalc.Number.Magnitude
