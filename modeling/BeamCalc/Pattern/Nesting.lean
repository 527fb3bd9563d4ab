/-!
# Nesting in a pattern

The parts of a pattern may be nested only so deep. A `Row` keeps what the depth depends on while
its parts are read one after the other: single characters have depth 0, and a row of several parts
is one deeper than the deepest of them.
-/

set_option autoImplicit false
set_option relaxedAutoImplicit false

namespace BeamCalc.Pattern

/-- The greatest depth of a pattern. -/
def nestingLimit : Nat := 250

/-- Parts that stand side by side: how many there are, and the depths of the deepest and the last
of them. -/
structure Row where
  count : Nat := 0
  deepest : Nat := 0
  last : Nat := 0
  deriving Repr, DecidableEq

namespace Row

/-- A row with one more part. -/
def add (row : Row) (depth : Nat) : Row :=
  ⟨row.count + 1, max row.deepest depth, depth⟩

/-- A row with its last part repeated. -/
def repeatLast (row : Row) : Row :=
  ⟨row.count, max row.deepest (row.last + 1), row.last + 1⟩

/-- The depth of a row. One part alone is not nested in anything. -/
def depth (row : Row) : Nat :=
  if row.count ≤ 1 then row.deepest else row.deepest + 1

/-- A row of one part is as deep as the part. -/
theorem depth_add_empty (depth : Nat) : (({} : Row).add depth).depth = depth := by
  simp [add, Row.depth]

/-- A row of single characters has at most depth 1. -/
theorem depth_le_one {row : Row} (flat : row.deepest = 0) : row.depth ≤ 1 := by
  unfold depth
  split <;> omega

end Row

end BeamCalc.Pattern
