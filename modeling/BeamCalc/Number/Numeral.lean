import BeamCalc.Number.Reading

/-!
# Numerals in a text

`numeralSpan?` finds the longest unsigned numeral at the beginning of a text. What follows the
numeral decides where it ends: a point without a digit at either side, and an exponent mark
without digits, do not belong to it. `append_of_numeralSpan?` says that a numeral and the text
after it make up the text, `ne_nil_of_numeralSpan?` that a numeral is not empty.
-/

set_option autoImplicit false
set_option relaxedAutoImplicit false

namespace BeamCalc.Number

/-- The digits at the beginning of a text and the text after them make up the text. -/
theorem takeDigits_append (text : List Char) : (takeDigits text).1 ++ (takeDigits text).2 = text :=
  List.takeWhile_append_dropWhile

/-- The sign at the beginning of a text, as it stands there, and the text after it. -/
def signSpan : (text : List Char) → List Char × List Char
  | '-' :: rest => (['-'], rest)
  | '+' :: rest => (['+'], rest)
  | text => ([], text)

/-- A sign and the text after it make up the text. -/
theorem signSpan_append (text : List Char) : (signSpan text).1 ++ (signSpan text).2 = text := by
  unfold signSpan
  split <;> rfl

/-- The point at the beginning of a text with the digits after it, and the text after those. A
point needs a digit before it, which `led` tells, or right after it. -/
def pointSpan (led : Bool) : (text : List Char) → List Char × List Char
  | '.' :: rest =>
    let (fraction, left) := takeDigits rest
    if led || !fraction.isEmpty then ('.' :: fraction, left) else ([], '.' :: rest)
  | text => ([], text)

/-- A point with its digits and the text after them make up the text. -/
theorem pointSpan_append (led : Bool) (text : List Char) :
    (pointSpan led text).1 ++ (pointSpan led text).2 = text := by
  unfold pointSpan
  split
  · dsimp only
    split
    · simpa using takeDigits_append _
    · rfl
  · rfl

/-- The exponent at the beginning of a text and the text after it. A mark that no digit follows
begins no exponent, and all the text is left. -/
def exponentSpan : (text : List Char) → List Char × List Char
  | [] => ([], [])
  | mark :: rest =>
    let (sign, unsigned) := signSpan rest
    let (digits, left) := takeDigits unsigned
    if isExponentMark mark && !digits.isEmpty then (mark :: sign ++ digits, left)
    else ([], mark :: rest)

/-- An exponent and the text after it make up the text. -/
theorem exponentSpan_append (text : List Char) :
    (exponentSpan text).1 ++ (exponentSpan text).2 = text := by
  unfold exponentSpan
  split
  · rfl
  · rename_i mark rest
    dsimp only
    split
    · simp only [List.cons_append, List.append_assoc, List.cons.injEq, true_and]
      rw [takeDigits_append, signSpan_append]
    · rfl

/-- The longest unsigned numeral at the beginning of a text and the text after it. -/
def numeralSpan? (text : List Char) : Option (List Char × List Char) :=
  let (whole, rest) := takeDigits text
  let (point, rest) := pointSpan (!whole.isEmpty) rest
  if whole.isEmpty && point.isEmpty then none
  else
    let (exponent, rest) := exponentSpan rest
    some (whole ++ point ++ exponent, rest)

/-- A numeral and the text after it make up the text. -/
theorem append_of_numeralSpan? {text numeral rest : List Char}
    (h : numeralSpan? text = some (numeral, rest)) : numeral ++ rest = text := by
  unfold numeralSpan? at h
  dsimp only at h
  split at h
  · simp at h
  · simp only [Option.some.injEq, Prod.mk.injEq] at h
    obtain ⟨rfl, rfl⟩ := h
    rw [List.append_assoc, exponentSpan_append, List.append_assoc, pointSpan_append,
      takeDigits_append]

/-- A numeral is not empty. -/
theorem ne_nil_of_numeralSpan? {text numeral rest : List Char}
    (h : numeralSpan? text = some (numeral, rest)) : numeral ≠ [] := by
  unfold numeralSpan? at h
  dsimp only at h
  split at h
  · simp at h
  · rename_i some_digit
    simp only [Option.some.injEq, Prod.mk.injEq] at h
    obtain ⟨rfl, -⟩ := h
    simp only [Bool.and_eq_true, List.isEmpty_iff, not_and] at some_digit
    simp only [ne_eq, List.append_eq_nil_iff, not_and]
    exact fun both ↦ absurd both.2 (some_digit both.1)

end BeamCalc.Number
