/-!
# Cutting a text at a mark

`cut?` splits a text at the first place where a mark stands and drops the mark; `segments` splits a
text at every occurrence of one character. `append_of_cut?` says that a cut loses nothing but the
mark, `segments_append_cons` that the pieces of a text do not depend on each other.
-/

set_option autoImplicit false
set_option relaxedAutoImplicit false

namespace BeamCalc.Text

/-- The rest of `text` after `mark`, when `text` begins with `mark`. -/
def after? : (mark text : List Char) → Option (List Char)
  | [], text => some text
  | _ :: _, [] => none
  | expected :: mark, found :: text => if expected = found then after? mark text else none

/-- The texts before and after the first place where `mark` stands. -/
def cut? (mark : List Char) : (text : List Char) → Option (List Char × List Char)
  | [] => (after? mark []).map fun rest ↦ ([], rest)
  | first :: text =>
    match after? mark (first :: text) with
    | some rest => some ([], rest)
    | none => (cut? mark text).map fun (before, rest) ↦ (first :: before, rest)

/-- The pieces of a text between the occurrences of `separator`, of which there is always one more
than there are occurrences. -/
def segments (separator : Char) : (text : List Char) → List (List Char)
  | [] => [[]]
  | first :: text =>
    if first = separator then [] :: segments separator text
    else
      match segments separator text with
      | [] => [[first]]
      | segment :: others => (first :: segment) :: others

/-- A text that begins with a mark is the mark and the rest. -/
theorem append_of_after? {mark text rest : List Char} (h : after? mark text = some rest) :
    mark ++ rest = text := by
  fun_induction after? mark text with
  | case1 text => simpa using h.symm
  | case2 => simp at h
  | case3 mark found text ih => simpa using ih h
  | case4 => simp at h

/-- A cut text is the text before the mark, the mark, and the text after it. -/
theorem append_of_cut? {mark text before rest : List Char}
    (h : cut? mark text = some (before, rest)) : before ++ mark ++ rest = text := by
  induction text generalizing before with
  | nil =>
    simp only [cut?, Option.map_eq_some_iff, Prod.mk.injEq] at h
    obtain ⟨_, found, rfl, rfl⟩ := h
    simpa using append_of_after? found
  | cons first text ih =>
    simp only [cut?] at h
    split at h
    · rename_i found
      simp only [Option.some.injEq, Prod.mk.injEq] at h
      obtain ⟨rfl, rfl⟩ := h
      simpa using append_of_after? found
    · simp only [Option.map_eq_some_iff, Prod.mk.injEq, Prod.exists] at h
      obtain ⟨inner, _, found, rfl, rfl⟩ := h
      simpa using ih found

theorem segments_ne_nil (separator : Char) (text : List Char) : segments separator text ≠ [] := by
  cases text with
  | nil => simp [segments]
  | cons first text =>
    unfold segments
    split
    · simp
    · split <;> simp

/-- The pieces of two texts with a separator between them are the pieces of both. -/
theorem segments_append_cons (separator : Char) (text other : List Char) :
    segments separator (text ++ separator :: other) =
      segments separator text ++ segments separator other := by
  induction text with
  | nil => simp [segments]
  | cons first text ih =>
    simp only [List.cons_append, segments, ih]
    split
    · rfl
    · cases h : segments separator text with
      | nil => exact absurd h (segments_ne_nil separator text)
      | cons segment others => simp

end BeamCalc.Text
