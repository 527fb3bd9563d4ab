import BeamCalc.Pattern.Modes

/-!
# Escapes of a pattern

A backslash gives the characters after it another meaning: a literal character, a set of
characters, or a position in the text. `length_lt_of_escape?` says that reading an escape takes
some of the text.
-/

set_option autoImplicit false
set_option relaxedAutoImplicit false

namespace BeamCalc.Pattern

/-- The smallest parts of a pattern: a literal character, a set of characters, or a position. -/
inductive Atom where
  | literal (character : Char)
  | set
  | position
  deriving Repr, DecidableEq

/-- Whether an atom is a literal character. -/
def Atom.isLiteral : Atom → Bool
  | literal _ => true
  | _ => false

/-- Whether an atom can be a member of a class. -/
def Atom.isMember (modes : Modes) : Atom → Bool
  | literal character => modes.admits character
  | set => true
  | position => false

/-- Whether two atoms are the ends of a range of characters. -/
def Atom.areEnds (modes : Modes) : (low high : Atom) → Bool
  | literal low, literal high => modes.admits low && modes.admits high && low ≤ high
  | _, _ => false

/-- The value of a hexadecimal digit. -/
def hexDigit? (digit : Char) : Option Nat :=
  if digit.isDigit then some (digit.toNat - '0'.toNat)
  else if 'a' ≤ digit ∧ digit ≤ 'f' then some (digit.toNat - 'a'.toNat + 10)
  else if 'A' ≤ digit ∧ digit ≤ 'F' then some (digit.toNat - 'A'.toNat + 10)
  else none

/-- The number that `count` hexadecimal digits write after those of `value`, and the text after
them. -/
def hexDigits? (modes : Modes) (value : Nat) :
    (count : Nat) → (text : List Char) → Option (Nat × List Char)
  | 0, text => some (value, text)
  | count + 1, text =>
    match modes.skip text with
    | [] => none
    | digit :: rest =>
      (hexDigit? digit).bind fun low ↦ hexDigits? modes (16 * value + low) count rest

/-- The character with a code point of `count` hexadecimal digits, and the text after them. -/
def codePoint? (modes : Modes) (count : Nat) (text : List Char) : Option (Char × List Char) := do
  let (value, rest) ← hexDigits? modes 0 count text
  if value.isValidChar then some (Char.ofNat value, rest) else none

/-- The control characters with an escape of one letter. -/
def control? (letter : Char) : Option Char :=
  [('a', '\x07'), ('f', '\x0c'), ('n', '\n'), ('r', '\r'), ('t', '\t'), ('v', '\x0b')].lookup letter

/-- The atom of one character after a backslash. Sets and the positions that depend on them are
those of ASCII only, since patterns go without tables of the sets. -/
def simpleAtom? (modes : Modes) (character : Char) : Option Atom :=
  if character = 'A' ∨ character = 'z' then some .position
  else if "bB<>".toList.contains character then if modes.unicode then none else some .position
  else if "dsw".toList.contains character then if modes.unicode then none else some .set
  else if character.toNat < 0x80 ∧ !character.isAlphanum then some (.literal character)
  else (control? character).map .literal

/-- The atom that the text after a backslash writes, and the text after it. A byte can only be
written by its number if it is a character. -/
def escape? (modes : Modes) : (text : List Char) → Option (Atom × List Char)
  | [] => none
  | 'x' :: rest => do
    let (character, rest) ← codePoint? modes 2 rest
    if modes.admits character then some (.literal character, rest) else none
  | 'u' :: rest => (codePoint? modes 4 rest).map fun (character, rest) ↦ (.literal character, rest)
  | 'U' :: rest => (codePoint? modes 8 rest).map fun (character, rest) ↦ (.literal character, rest)
  | character :: rest => (simpleAtom? modes character).map fun atom ↦ (atom, rest)

theorem length_le_of_hexDigits? {modes : Modes} {value count number : Nat} {text rest : List Char}
    (h : hexDigits? modes value count text = some (number, rest)) :
    rest.length ≤ text.length := by
  induction count generalizing value text with
  | zero =>
    simp only [hexDigits?, Option.some.injEq, Prod.mk.injEq] at h
    exact Nat.le_of_eq (by rw [h.2])
  | succ count ih =>
    simp only [hexDigits?] at h
    split at h
    · simp at h
    · rename_i skipped
      obtain ⟨_, -, h⟩ := Option.bind_eq_some_iff.mp h
      have shorter := modes.length_skip_le text
      have := ih h
      simp only [skipped, List.length_cons] at shorter
      omega

theorem length_le_of_codePoint? {modes : Modes} {count : Nat} {character : Char}
    {text rest : List Char} (h : codePoint? modes count text = some (character, rest)) :
    rest.length ≤ text.length := by
  obtain ⟨⟨_, left⟩, found, h⟩ := Option.bind_eq_some_iff.mp h
  dsimp only at h
  split at h
  · simp only [Option.some.injEq, Prod.mk.injEq] at h
    obtain ⟨-, rfl⟩ := h
    exact length_le_of_hexDigits? found
  · simp at h

/-- Reading an escape takes some of the text. -/
theorem length_lt_of_escape? {modes : Modes} {atom : Atom} {text rest : List Char}
    (h : escape? modes text = some (atom, rest)) : rest.length < text.length := by
  unfold escape? at h
  split at h
  · simp at h
  · obtain ⟨⟨_, left⟩, found, h⟩ := Option.bind_eq_some_iff.mp h
    have := length_le_of_codePoint? found
    dsimp only at h
    split at h
    · simp only [Option.some.injEq, Prod.mk.injEq] at h
      obtain ⟨-, rfl⟩ := h
      exact Nat.lt_succ_of_le this
    · simp at h
  · obtain ⟨⟨_, left⟩, found, h⟩ := Option.map_eq_some_iff.mp h
    have := length_le_of_codePoint? found
    simp only [Prod.mk.injEq] at h
    obtain ⟨-, rfl⟩ := h
    exact Nat.lt_succ_of_le this
  · obtain ⟨⟨_, left⟩, found, h⟩ := Option.map_eq_some_iff.mp h
    have := length_le_of_codePoint? found
    simp only [Prod.mk.injEq] at h
    obtain ⟨-, rfl⟩ := h
    exact Nat.lt_succ_of_le this
  · obtain ⟨_, -, h⟩ := Option.map_eq_some_iff.mp h
    simp only [Prod.mk.injEq] at h
    obtain ⟨-, rfl⟩ := h
    exact Nat.lt_succ_self _

end BeamCalc.Pattern
