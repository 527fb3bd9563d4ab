/-!
# Classes of characters

A class of characters is a list of ranges of code points, as Unicode lists its properties.
-/

set_option autoImplicit false
set_option relaxedAutoImplicit false

namespace BeamCalc.Text

/-- Whether the code point of a character lies in one of the ranges, first and last included. -/
def isIn (ranges : List (Nat × Nat)) (character : Char) : Bool :=
  ranges.any fun range ↦ range.1 ≤ character.toNat && character.toNat ≤ range.2

/-- The characters of a range of the list are in the list. -/
theorem isIn_of_mem {ranges : List (Nat × Nat)} {character : Char} (first last : Nat)
    (listed : (first, last) ∈ ranges) (lower : first ≤ character.toNat)
    (upper : character.toNat ≤ last) : isIn ranges character = true :=
  List.any_eq_true.mpr ⟨_, listed, by simp [lower, upper]⟩

/-- Whether ranges stand in order, with gaps between them. -/
def areApart : (ranges : List (Nat × Nat)) → Bool
  | [] => true
  | [range] => range.1 ≤ range.2
  | range :: next :: ranges =>
    range.1 ≤ range.2 && range.2 + 1 < next.1 && areApart (next :: ranges)

end BeamCalc.Text
