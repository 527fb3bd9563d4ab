import BeamCalc.Proofs.Number.Syntax
import BeamCalc.Proofs.Token.Scanning

/-!
# The lexicon

The words that tokens are written with, as regular expressions: numerals, names and marks
(`lexeme`). The first character of a word tells which of them it is, so that each word writes one
token (`Spells`, `existsUnique_spells`). `Lexeme.first?` finds the longest word at the beginning of
a text and the token that it writes (`first?_eq_some_iff`), or there is none (`first?_eq_none_iff`).
-/

set_option autoImplicit false
set_option relaxedAutoImplicit false

open scoped Computability

namespace BeamCalc

open Text

namespace Lexicon

/-! ### Regular expressions -/

/-- One letter. -/
def letter : Language Char :=
  between 'a' 'z' + between 'A' 'Z'

/-- One character of a name after its first letter. -/
def continuation : Language Char :=
  letter + Number.digit + oneOf ['_', '.', '\x27']

/-- A letter and any number of continuations. -/
def name : Language Char :=
  letter * continuation∗

/-- The operators, the brackets and the comma. -/
def mark : Language Char :=
  oneOf ['+', '-', '*', '/', '^', '(', ')', ',']

/-- The words that tokens are written with. -/
def lexeme : Language Char :=
  Number.numeral + name + mark

variable {word text others : List Char} {first : Char}

theorem isClass_letter : IsClass letter Char.isAlpha := by
  refine ((isClass_between 'a' 'z').add (isClass_between 'A' 'Z')).congr fun character ↦ ?_
  change _ = (decide ('A' ≤ character ∧ character ≤ 'Z') ||
    (decide ('a' ≤ character) && decide (character ≤ 'z')))
  rw [Bool.decide_and, Bool.or_comm]

theorem isClass_continuation : IsClass continuation isNameChar := by
  refine ((isClass_letter.add Number.isClass_digit).add (isClass_oneOf _)).congr fun character ↦ ?_
  simp [isNameChar, Char.isAlphanum, Bool.or_assoc, beq_eq_decide]

theorem mem_name_iff : word ∈ name ↔
    ∃ first others, word = first :: others ∧ first.isAlpha ∧ others.all isNameChar :=
  isClass_letter.mem_mul_kstar_iff isClass_continuation

theorem mem_mark_iff : word ∈ mark ↔ ∃ sign : Mark, word = [sign.symbol] := by
  constructor
  · rintro ⟨character, hcharacter, rfl⟩
    simp only [List.mem_cons, List.not_mem_nil, or_false] at hcharacter
    rcases hcharacter with rfl | rfl | rfl | rfl | rfl | rfl | rfl | rfl
    · exact ⟨.plus, rfl⟩
    · exact ⟨.minus, rfl⟩
    · exact ⟨.times, rfl⟩
    · exact ⟨.divide, rfl⟩
    · exact ⟨.power, rfl⟩
    · exact ⟨.openParen, rfl⟩
    · exact ⟨.closeParen, rfl⟩
    · exact ⟨.comma, rfl⟩
  · rintro ⟨sign, rfl⟩
    refine ⟨sign.symbol, ?_, rfl⟩
    cases sign <;> decide

/-! ### What a word begins with -/

theorem not_isMantissaChar_of_isAlpha (h : first.isAlpha) :
    Number.isMantissaChar first = false := by
  rw [Number.isMantissaChar, Token.not_digit_of_isAlpha h, Bool.false_or, beq_eq_false_iff_ne]
  exact Token.ne_of_isAlpha h (by decide)

theorem not_isAlpha_of_isMantissaChar (h : Number.isMantissaChar first) :
    first.isAlpha = false := by
  refine Bool.eq_false_iff.mpr fun hletter ↦ ?_
  rw [not_isMantissaChar_of_isAlpha hletter] at h
  cases h

theorem not_isMantissaChar_symbol (sign : Mark) : Number.isMantissaChar sign.symbol = false := by
  cases sign <;> decide

theorem not_isAlpha_symbol (sign : Mark) : sign.symbol.isAlpha = false := by
  cases sign <;> decide

theorem not_isPrefix_numeral (h : Number.isMantissaChar first = false) :
    ∀ word ∈ Number.numeral, ¬word <+: first :: others := by
  intro word hword hfits
  obtain ⟨letter, left, rfl, hletter⟩ := Number.exists_head_of_mem_numeral hword
  rw [(List.cons_prefix_cons.mp hfits).1, h] at hletter
  cases hletter

theorem not_isPrefix_name (h : first.isAlpha = false) :
    ∀ word ∈ name, ¬word <+: first :: others := by
  refine isClass_letter.not_isPrefix_mul fun hletter ↦ ?_
  rw [h] at hletter
  cases hletter

theorem not_isPrefix_mark (h : ∀ sign : Mark, sign.symbol ≠ first) :
    ∀ word ∈ mark, ¬word <+: first :: others := by
  intro word hword hfits
  obtain ⟨sign, rfl⟩ := mem_mark_iff.mp hword
  exact h sign (List.cons_prefix_cons.mp hfits).1

/-- The characters that only separate words. -/
def separators : List Char :=
  [' ', '\t', '\r', '\n', '\x0c']

theorem isSeparator_iff : isSeparator first ↔ first ∈ separators := by
  simp [isSeparator, separators, or_assoc]

/-- No word begins with a separator. -/
theorem not_isPrefix_of_separator (h : first ∈ separators) :
    ∀ word ∈ lexeme, ¬word <+: first :: others := by
  have hkind : ∀ character ∈ separators, Number.isMantissaChar character = false ∧
      character.isAlpha = false ∧ ∀ sign : Mark, sign.symbol ≠ character := by
    intro character hcharacter
    simp only [separators, List.mem_cons, List.not_mem_nil, or_false] at hcharacter
    rcases hcharacter with rfl | rfl | rfl | rfl | rfl <;>
      exact ⟨by decide, by decide, fun sign ↦ by cases sign <;> decide⟩
  obtain ⟨hmantissa, hletter, hsymbol⟩ := hkind first h
  rintro word ((hword | hword) | hword)
  · exact not_isPrefix_numeral hmantissa word hword
  · exact not_isPrefix_name hletter word hword
  · exact not_isPrefix_mark hsymbol word hword

/-- No word is empty. -/
theorem ne_nil_of_mem_lexeme (h : word ∈ lexeme) : word ≠ [] := by
  rcases h with (h | h) | h
  · obtain ⟨first, others, rfl, -⟩ := Number.exists_head_of_mem_numeral h
    exact List.cons_ne_nil _ _
  · obtain ⟨first, others, rfl, -⟩ := mem_name_iff.mp h
    exact List.cons_ne_nil _ _
  · obtain ⟨sign, rfl⟩ := mem_mark_iff.mp h
    exact List.cons_ne_nil _ _

/-! ### The longest word -/

/-- Where a numeral stands, no other word does. -/
theorem isLongest_of_numeral (h : IsLongest Number.numeral word text) :
    IsLongest lexeme word text := by
  obtain ⟨first, left, rfl, hfirst⟩ := Number.exists_head_of_mem_numeral h.mem
  obtain ⟨rest, rfl⟩ := h.isPrefix
  refine (h.add_left (not_isPrefix_name (not_isAlpha_of_isMantissaChar hfirst))).add_left
    (not_isPrefix_mark ?_)
  rintro sign rfl
  rw [not_isMantissaChar_symbol] at hfirst
  cases hfirst

/-- Where a letter stands, the longest word is a name. -/
theorem isLongest_of_letter (h : first.isAlpha) (others : List Char) :
    IsLongest lexeme (first :: others.takeWhile isNameChar) (first :: others) := by
  have hname : IsLongest name (first :: others.takeWhile isNameChar) (first :: others) :=
    isClass_letter.isLongest_mul h (isClass_continuation.isLongest_takeWhile others)
  refine (hname.add_right (not_isPrefix_numeral (not_isMantissaChar_of_isAlpha h))).add_left
    (not_isPrefix_mark ?_)
  rintro sign rfl
  rw [not_isAlpha_symbol] at h
  cases h

/-- Where a mark stands, it is the longest word. -/
theorem isLongest_symbol (sign : Mark) (others : List Char) :
    IsLongest lexeme [sign.symbol] (sign.symbol :: others) := by
  have hmark : IsLongest mark [sign.symbol] (sign.symbol :: others) :=
    (isClass_oneOf _).isLongest_singleton (by cases sign <;> rfl) others
  refine hmark.add_right ?_
  rintro word (hword | hword)
  · exact not_isPrefix_numeral (not_isMantissaChar_symbol sign) word hword
  · exact not_isPrefix_name (not_isAlpha_symbol sign) word hword

end Lexicon

namespace Token

open Lexicon

variable {word rest text : List Char} {token token' : Token}

/-- The token that a word writes. -/
inductive Spells : List Char → Token → Prop where
  | number {word : List Char} {value : Float} (hword : word ∈ Number.numeral)
      (hvalue : Number.read? word = some value) : Spells word (.number value)
  | name {word : List Char} (hword : word ∈ Lexicon.name) : Spells word (.name (String.ofList word))
  | mark (sign : Mark) : Spells [sign.symbol] (.mark sign)

theorem exists_spells (h : word ∈ lexeme) : ∃ token, Spells word token := by
  rcases h with (h | h) | h
  · obtain ⟨value, hvalue⟩ := Number.exists_read?_of_mem_numeral h
    exact ⟨_, .number h hvalue⟩
  · exact ⟨_, .name h⟩
  · obtain ⟨sign, rfl⟩ := mem_mark_iff.mp h
    exact ⟨_, .mark sign⟩

/-- A word writes one token, since its first character tells whether it is a numeral, a name or a
mark. -/
theorem Spells.eq (h : Spells word token) (h' : Spells word token') : token = token' := by
  have hfits := List.prefix_refl word
  cases h with
  | number hword hvalue =>
    obtain ⟨first, left, rfl, hfirst⟩ := Number.exists_head_of_mem_numeral hword
    cases h' with
    | number hword' hvalue' => rw [Option.some.inj (hvalue.symm.trans hvalue')]
    | name hword' =>
      exact absurd hfits (not_isPrefix_name (not_isAlpha_of_isMantissaChar hfirst) _ hword')
    | mark sign =>
      rw [not_isMantissaChar_symbol] at hfirst
      cases hfirst
  | name hword =>
    obtain ⟨first, left, rfl, hfirst, -⟩ := mem_name_iff.mp hword
    cases h' with
    | number hword' =>
      exact absurd hfits (not_isPrefix_numeral (not_isMantissaChar_of_isAlpha hfirst) _ hword')
    | name => rfl
    | mark sign =>
      rw [not_isAlpha_symbol] at hfirst
      cases hfirst
  | mark sign =>
    generalize hword : [sign.symbol] = word at h'
    cases h' with
    | number hword' =>
      subst hword
      exact absurd hfits (not_isPrefix_numeral (not_isMantissaChar_symbol sign) _ hword')
    | name hword' =>
      subst hword
      exact absurd hfits (not_isPrefix_name (not_isAlpha_symbol sign) _ hword')
    | mark sign' =>
      have hsame := Mark.ofSymbol?_eq_some_iff.mpr (List.cons.inj hword).1
      rw [Mark.ofSymbol?_eq_some_iff.mpr rfl] at hsame
      rw [Option.some.inj hsame]

/-- Every word writes one token. -/
theorem existsUnique_spells (h : word ∈ lexeme) : ∃! token, Spells word token := by
  obtain ⟨token, htoken⟩ := exists_spells h
  exact ⟨token, htoken, fun _ hother ↦ hother.eq htoken⟩

/-- What `Lexeme.first?` finds is the longest word and its token. -/
theorem isLongest_of_first? {lexeme : Lexeme} (h : Lexeme.first? text = some lexeme) :
    IsLongest Lexicon.lexeme lexeme.taken text ∧
      ∃ token, lexeme.token = some token ∧ Spells lexeme.taken token := by
  unfold Lexeme.first? at h
  split at h
  · cases h
  · split at h
    · rename_i numeral rest hnumeral
      obtain rfl := Option.some.inj h
      have hlongest := Number.isLongest_numeralSpan? hnumeral
      obtain ⟨value, hvalue⟩ := Number.exists_read?_of_mem_numeral hlongest.mem
      exact ⟨isLongest_of_numeral hlongest, .number value, by rw [hvalue]; rfl,
        .number hlongest.mem hvalue⟩
    · split at h
      · rename_i first others _ _ hletter
        obtain rfl := Option.some.inj h
        exact ⟨isLongest_of_letter hletter others, _, rfl,
          .name (mem_name_iff.mpr ⟨first, _, rfl, hletter, List.all_takeWhile⟩)⟩
      · obtain ⟨sign, hsign, rfl⟩ := Option.map_eq_some_iff.mp h
        obtain rfl := Mark.ofSymbol?_eq_some_iff.mp hsign
        exact ⟨isLongest_symbol sign _, _, rfl, .mark sign⟩

/-- Where nothing is found, no word begins. -/
theorem not_isPrefix_of_first? (h : Lexeme.first? text = none) :
    ∀ word ∈ lexeme, ¬word <+: text := by
  match text with
  | [] => exact fun word hword hfits ↦ ne_nil_of_mem_lexeme hword (List.prefix_nil.mp hfits)
  | first :: others =>
    rw [Lexeme.first?] at h
    split at h
    · cases h
    · rename_i hnumeral
      split at h
      · cases h
      · rename_i hletter
        have hmark := Option.map_eq_none_iff.mp h
        rintro word ((hword | hword) | hword)
        · exact Number.not_isPrefix_of_numeralSpan? hnumeral word hword
        · exact not_isPrefix_name (by simpa using hletter) word hword
        · refine not_isPrefix_mark (fun sign hsign ↦ ?_) word hword
          rw [Mark.ofSymbol?_eq_some_iff.mpr hsign] at hmark
          cases hmark

/-- The longest word at the beginning of a text, its token and what follows it. -/
theorem first?_eq_some_iff : Lexeme.first? text = some ⟨word, rest, some token⟩ ↔
    word ++ rest = text ∧ IsLongest lexeme word text ∧ Spells word token := by
  constructor
  · intro h
    obtain ⟨hlongest, _, htoken, hspells⟩ := isLongest_of_first? h
    obtain rfl := Option.some.inj htoken
    exact ⟨(Lexeme.append_of_first? h).1, hlongest, hspells⟩
  · rintro ⟨htext, hlongest, hspells⟩
    match hfound : Lexeme.first? text with
    | none => exact absurd hlongest.isPrefix (not_isPrefix_of_first? hfound word hlongest.mem)
    | some ⟨taken, left, found⟩ =>
      obtain ⟨hlongest', token', rfl, hspells'⟩ := isLongest_of_first? hfound
      obtain rfl : taken = word := hlongest'.eq hlongest
      obtain rfl := hspells'.eq hspells
      have hleft : taken ++ left = text := (Lexeme.append_of_first? hfound).1
      rw [← htext] at hleft
      rw [List.append_cancel_left hleft]

/-- Nothing is found where no word begins. -/
theorem first?_eq_none_iff :
    Lexeme.first? text = none ↔ ∀ word ∈ lexeme, ¬word <+: text := by
  constructor
  · exact not_isPrefix_of_first?
  · intro hnone
    refine Option.eq_none_iff_forall_ne_some.mpr fun found hfound ↦ ?_
    have hlongest := (isLongest_of_first? hfound).1
    exact hnone _ hlongest.mem hlongest.isPrefix

end Token

end BeamCalc
