import BeamCalc.Proofs.Number.ReadingBack
import BeamCalc.Proofs.Token.Tiling
import BeamCalc.Text.Blank

/-!
# The characters of tokens

A word is written with letters, digits and a few marks (`isWordChar_of_mem_lexeme`), and so is the
text of every number (`isWordChar_signedText`). No such character is blank, and every separator is.
A text with any other character than these and separators has no tokens (`exists_ofText_eq_error`).
-/

set_option autoImplicit false
set_option relaxedAutoImplicit false

open scoped Computability

namespace BeamCalc

open Text

/-! ### The characters of words -/

namespace Number

variable {word : List Char}

/-- The characters of a numeral: digits, the point, the letters that begin an exponent and its
sign. -/
def isNumeralChar (character : Char) : Bool :=
  isMantissaChar character || isExponentMark character || decide (character ∈ ['+', '-'])

theorem isNumeralChar_of_isMantissaChar (h : word.all isMantissaChar) : word.all isNumeralChar := by
  refine List.all_eq_true.mpr fun character hcharacter ↦ ?_
  rw [isNumeralChar, List.all_eq_true.mp h character hcharacter, Bool.true_or, Bool.true_or]

theorem isNumeralChar_of_mem_sign :
    ∀ word ∈ 1 + oneOf ['+', '-'], word.all isNumeralChar := by
  rintro word (rfl | ⟨character, hcharacter, rfl⟩)
  · rfl
  · simp [isNumeralChar, hcharacter]

theorem isNumeralChar_of_mem_numeral (h : word ∈ numeral) : word.all isNumeralChar := by
  obtain ⟨mantissa, after, hmantissa, hafter, rfl⟩ := exists_mantissa_of_mem_numeral h
  rw [List.all_append, isNumeralChar_of_isMantissaChar hmantissa.all_isMantissaChar, Bool.true_and]
  rcases hafter with rfl | hafter
  · rfl
  · obtain ⟨mark, rest, rfl, hmark, hrest⟩ := mem_exponent_iff.mp hafter
    rw [List.all_cons, isNumeralChar, hmark, Bool.or_true, Bool.true_or, Bool.true_and]
    exact all_of_mem_mul isNumeralChar_of_mem_sign
      (fun word hword ↦ isNumeralChar_of_isMantissaChar (isMantissaChar_of_mem_digits word hword))
      rest hrest

end Number

namespace Lexicon

variable {character : Char} {word : List Char}

/-- The characters that words are written with. -/
def isWordChar (character : Char) : Bool :=
  isNameChar character || decide (character ∈ ['+', '-', '*', '/', '^', '(', ')', ','])

theorem isWordChar_of_isNameChar (h : isNameChar character) : isWordChar character := by
  rw [isWordChar, h, Bool.true_or]

theorem isWordChar_of_isNumeralChar (h : Number.isNumeralChar character) :
    isWordChar character := by
  simp only [Number.isNumeralChar, Number.isMantissaChar, Number.isExponentMark, Bool.or_eq_true,
    beq_iff_eq, decide_eq_true_eq, List.mem_cons, List.not_mem_nil, or_false] at h
  rcases h with ((hdigit | rfl) | (((rfl | rfl) | rfl) | rfl)) | (rfl | rfl)
  · refine isWordChar_of_isNameChar ?_
    simp [isNameChar, Char.isAlphanum, hdigit]
  all_goals decide

theorem isNameChar_of_mem_name (h : word ∈ name) : word.all isNameChar := by
  obtain ⟨first, others, rfl, hfirst, hothers⟩ := mem_name_iff.mp h
  rw [List.all_cons, hothers, Bool.and_true]
  simp [isNameChar, Char.isAlphanum, hfirst]

/-- A word is written with these characters only. -/
theorem isWordChar_of_mem_lexeme (h : word ∈ lexeme) : word.all isWordChar := by
  refine List.all_eq_true.mpr fun character hcharacter ↦ ?_
  rcases h with (h | h) | h
  · exact isWordChar_of_isNumeralChar
      (List.all_eq_true.mp (Number.isNumeralChar_of_mem_numeral h) character hcharacter)
  · exact isWordChar_of_isNameChar
      (List.all_eq_true.mp (isNameChar_of_mem_name h) character hcharacter)
  · obtain ⟨sign, rfl⟩ := mem_mark_iff.mp h
    rw [List.mem_singleton.mp hcharacter]
    cases sign <;> decide

/-- The code points of the characters of a name. -/
theorem toNat_of_isNameChar (h : isNameChar character) :
    (0x30 ≤ character.toNat ∧ character.toNat ≤ 0x39) ∨
      (0x41 ≤ character.toNat ∧ character.toNat ≤ 0x5A) ∨
      (0x61 ≤ character.toNat ∧ character.toNat ≤ 0x7A) ∨ character ∈ ['_', '.', '\x27'] := by
  simp only [isNameChar, Char.isAlphanum, Char.isAlpha, Char.isUpper, Char.isLower, Char.isDigit,
    Bool.or_eq_true, Bool.and_eq_true, decide_eq_true_eq, beq_iff_eq, ge_iff_le,
    UInt32.le_iff_toNat_le] at h
  rcases h with ((((hupper | hlower) | hdigit) | rfl) | rfl) | rfl
  · exact .inr (.inl hupper)
  · exact .inr (.inr (.inl hlower))
  · exact .inl hdigit
  all_goals decide

/-- No blank is a character of a word. -/
theorem not_isBlank_of_isWordChar (h : isWordChar character) : ¬isBlank character := by
  intro hblank
  simp only [isBlank, isIn, blankRanges, List.any_cons, List.any_nil, Bool.or_eq_true,
    Bool.and_eq_true, decide_eq_true_eq, Bool.false_eq_true, or_false] at hblank
  rcases Bool.or_eq_true_iff.mp h with hname | hmark
  · rcases toNat_of_isNameChar hname with hdigit | hupper | hlower | hother
    · omega
    · omega
    · omega
    · revert hblank
      simp only [List.mem_cons, List.not_mem_nil, or_false] at hother
      rcases hother with rfl | rfl | rfl <;> decide
  · revert hblank
    have hmarks := of_decide_eq_true hmark
    simp only [List.mem_cons, List.not_mem_nil, or_false] at hmarks
    rcases hmarks with rfl | rfl | rfl | rfl | rfl | rfl | rfl | rfl <;> decide

theorem not_isBlank_of_all (h : word.all isWordChar) : ∀ character ∈ word, ¬isBlank character :=
  fun character hcharacter ↦ not_isBlank_of_isWordChar (List.all_eq_true.mp h character hcharacter)

theorem not_isBlank_of_mem_name (h : word ∈ name) : ∀ character ∈ word, ¬isBlank character :=
  not_isBlank_of_all (isWordChar_of_mem_lexeme (.inl (.inr h)))

theorem not_mem_of_all (h : word.all isWordChar) (hcharacter : isWordChar character = false) :
    character ∉ word := by
  intro hmem
  rw [List.all_eq_true.mp h character hmem] at hcharacter
  cases hcharacter

theorem isBlank_of_mem_separators (h : character ∈ separators) : isBlank character := by
  simp only [separators, List.mem_cons, List.not_mem_nil, or_false] at h
  rcases h with rfl | rfl | rfl | rfl | rfl <;> rfl

end Lexicon

/-! ### The characters of a number -/

namespace Number

open Lexicon

variable {pattern : Nat} {text : List Char} {magnitude : Nat → List Char}

theorem IsTextOf.isWordChar (h : IsTextOf pattern text) : text.all isWordChar :=
  isWordChar_of_mem_lexeme (.inl (.inl h.mem_numeral))

/-- The text of a number is written with the characters of words. -/
theorem isWordChar_signedText
    (h : ∀ pattern < Magnitude.infinity, IsTextOf pattern (magnitude pattern)) (value : Float) :
    (signedText magnitude value).toList.all isWordChar := by
  have hsigned : ∀ digits : List Char, digits.all isWordChar →
      (if isNegative value then '-' :: digits else digits).all isWordChar := by
    intro digits hdigits
    split
    · rw [List.all_cons, hdigits]
      rfl
    · exact hdigits
  unfold signedText
  dsimp only
  split
  · rfl
  · rename_i hnumber
    rw [String.toList_ofList]
    apply hsigned
    split
    · rfl
    · rename_i hfinite
      exact (h _ (Nat.lt_of_le_of_ne (Nat.le_of_not_lt hnumber) hfinite)).isWordChar

theorem isWordChar_plain (value : Float) : (plain value).toList.all isWordChar :=
  isWordChar_signedText (fun _ hfinite ↦ isTextOf_plain hfinite) value

theorem isWordChar_report (value : Float) : (report value).toList.all isWordChar :=
  isWordChar_signedText (fun _ hfinite ↦ isTextOf_report hfinite) value

end Number

/-! ### The characters of a text with tokens -/

namespace Token

open Lexicon

variable {after text : List Char} {position : Nat} {tokens : List PlacedToken}

/-- The characters of words and separators. -/
theorem Tiles.mem (h : Tiles after position text tokens) :
    ∀ character ∈ text, character ∈ separators ∨ isWordChar character := by
  induction h with
  | nil => exact fun _ hmem ↦ absurd hmem List.not_mem_nil
  | separator hseparator hrest ih => exact List.forall_mem_cons.mpr ⟨.inl hseparator, ih⟩
  | word hlongest hspells hrest ih =>
    intro character hcharacter
    rcases List.mem_append.mp hcharacter with hword | hrest
    · exact .inr (List.all_eq_true.mp (isWordChar_of_mem_lexeme hlongest.mem) character hword)
    · exact ih character hrest

/-- A text with a character that is written in no word is refused. -/
theorem exists_ofText_eq_error {text : String} {character : Char} (hmem : character ∈ text.toList)
    (hseparator : character ∉ separators) (hword : isWordChar character = false) :
    ∃ word position, ofText text = .error ⟨.unexpectedCharacter word, position⟩ := by
  match hscan : ofText text with
  | .ok tokens =>
    rcases (ofText_eq_ok_iff_tiles.mp hscan).mem character hmem with hsome | hsome
    · exact absurd hsome hseparator
    · rw [hword] at hsome
      cases hsome
  | .error error =>
    obtain ⟨_, _, _, _, _, _, _, _, rfl⟩ := ofText_eq_error_iff_tiles.mp hscan
    exact ⟨_, _, rfl⟩

end Token

end BeamCalc
