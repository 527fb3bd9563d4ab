/-!
# Bytes of a text

Positions in a text are counted in bytes of its UTF-8 form. `splitAt?` cuts a text at such a
position, `slice?` takes what stands between two; a position inside a character has no answer.
`splitAt?_eq_some_iff` says that a cut at a position is the one beginning of that many bytes.
-/

set_option autoImplicit false
set_option relaxedAutoImplicit false

namespace BeamCalc.Text

/-- The number of bytes of a text. -/
def byteLength : (text : List Char) → Nat
  | [] => 0
  | first :: rest => first.utf8Size + byteLength rest

/-- Every character has a byte. -/
theorem byteLength_pos {text : List Char} (h : text ≠ []) : 0 < byteLength text := by
  match text with
  | [] => exact absurd rfl h
  | first :: rest => exact Nat.add_pos_left first.utf8Size_pos _

/-- The texts before and after a position. -/
def splitAt? (position : Nat) : (text : List Char) → Option (List Char × List Char)
  | [] => if position = 0 then some ([], []) else none
  | first :: rest =>
    if position = 0 then some ([], first :: rest)
    else if first.utf8Size ≤ position then
      (splitAt? (position - first.utf8Size) rest).map fun (before, after) ↦ (first :: before, after)
    else none

/-- The text between two positions. -/
def slice? (first last : Nat) (text : List Char) : Option (List Char) := do
  let (upToLast, _) ← splitAt? last text
  let (_, slice) ← splitAt? first upToLast
  return slice

/-- A cut at a position parts the text into the beginning of that many bytes and the rest. -/
theorem splitAt?_eq_some_iff {position : Nat} {text before after : List Char} :
    splitAt? position text = some (before, after) ↔
      before ++ after = text ∧ byteLength before = position := by
  induction text generalizing position before with
  | nil =>
    simp only [splitAt?, List.append_eq_nil_iff]
    constructor
    · intro h
      split at h
      · simp only [Option.some.injEq, Prod.mk.injEq] at h
        obtain ⟨rfl, rfl⟩ := h
        simp_all [byteLength]
      · simp at h
    · rintro ⟨⟨rfl, rfl⟩, rfl⟩
      simp [byteLength]
  | cons first rest ih =>
    have positive := first.utf8Size_pos
    cases before with
    | nil =>
      simp only [splitAt?, List.nil_append, byteLength]
      constructor
      · intro h
        split at h
        · simp_all
        · split at h
          · simp at h
          · simp at h
      · rintro ⟨rfl, rfl⟩
        simp
    | cons other before =>
      simp only [splitAt?, List.cons_append, List.cons.injEq, byteLength]
      constructor
      · intro h
        split at h
        · simp at h
        · split at h
          · simp only [Option.map_eq_some_iff, Prod.mk.injEq, Prod.exists, List.cons.injEq] at h
            obtain ⟨_, _, found, ⟨rfl, rfl⟩, rfl⟩ := h
            obtain ⟨rfl, length⟩ := ih.mp found
            exact ⟨⟨rfl, rfl⟩, by omega⟩
          · simp at h
      · rintro ⟨⟨rfl, rfl⟩, rfl⟩
        rw [if_neg (by omega), if_pos (by omega), Nat.add_sub_cancel_left, ih.mpr ⟨rfl, rfl⟩]
        rfl

end BeamCalc.Text
