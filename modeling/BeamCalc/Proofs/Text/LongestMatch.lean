import Mathlib.Computability.Language

/-!
# Longest matches

The words that a regular expression describes are a `Language`, put together by `+`, `*` and `∗`
from classes of single characters (`between`, `oneOf`). `IsLongest` says that a word of a language
is the longest one that a text begins with. There is at most one (`IsLongest.eq`). The characters of
a class at the beginning of a text are the longest match of its closure
(`IsClass.isLongest_takeWhile`), and the longest matches of two languages one after the other are
that of their product if no word of the second begins with a character that the first could still
take (`IsLongest.mul`).
-/

set_option autoImplicit false
set_option relaxedAutoImplicit false

open scoped Computability

namespace BeamCalc.Text

/-! ### Classes of characters -/

/-- The words of one character between two, both included. -/
def between (first last : Char) : Language Char :=
  {word | ∃ character, first ≤ character ∧ character ≤ last ∧ word = [character]}

/-- The words of one of the characters. -/
def oneOf (characters : List Char) : Language Char :=
  {word | ∃ character ∈ characters, word = [character]}

/-- The words of a language are the single characters with a property. -/
def IsClass (language : Language Char) (property : Char → Bool) : Prop :=
  ∀ word, word ∈ language ↔ ∃ character, property character = true ∧ word = [character]

variable {language language' : Language Char} {property property' : Char → Bool}
  {word word' text rest : List Char}

theorem isClass_between (first last : Char) :
    IsClass (between first last) fun character ↦
      decide (first ≤ character) && decide (character ≤ last) := by
  intro word
  simp only [Bool.and_eq_true, decide_eq_true_eq, and_assoc]
  rfl

theorem isClass_oneOf (characters : List Char) :
    IsClass (oneOf characters) fun character ↦ decide (character ∈ characters) := by
  intro word
  simp only [decide_eq_true_eq]
  rfl

theorem IsClass.congr (h : IsClass language property)
    (hsame : ∀ character, property character = property' character) :
    IsClass language property' := by
  rw [← funext hsame]
  exact h

theorem IsClass.add (h : IsClass language property) (h' : IsClass language' property') :
    IsClass (language + language') fun character ↦ property character || property' character := by
  intro word
  simp only [Language.mem_add, h word, h' word, Bool.or_eq_true, or_and_right, exists_or]

/-- The closure of a class has the words of characters with the property. -/
theorem IsClass.mem_kstar_iff (h : IsClass language property) :
    word ∈ language∗ ↔ word.all property := by
  rw [Language.mem_kstar, List.all_eq_true]
  constructor
  · rintro ⟨words, rfl, hwords⟩ character hcharacter
    obtain ⟨part, hpart, hmem⟩ := List.mem_flatten.mp hcharacter
    obtain ⟨other, hother, rfl⟩ := (h part).mp (hwords part hpart)
    rw [List.mem_singleton.mp hmem]
    exact hother
  · intro hall
    refine ⟨word.map fun character ↦ [character], ?_, ?_⟩
    · rw [← List.flatMap_def, List.flatMap_singleton']
    intro part hpart
    obtain ⟨character, hcharacter, rfl⟩ := List.mem_map.mp hpart
    exact (h _).mpr ⟨character, hall character hcharacter, rfl⟩

/-- A character of a class and a word of another language after it. -/
theorem IsClass.mem_mul_iff (h : IsClass language property) : word ∈ language * language' ↔
    ∃ first after, word = first :: after ∧ property first ∧ after ∈ language' := by
  rw [Language.mem_mul]
  constructor
  · rintro ⟨_, hhead, after, hafter, rfl⟩
    obtain ⟨first, hfirst, rfl⟩ := (h _).mp hhead
    exact ⟨first, after, rfl, hfirst, hafter⟩
  · rintro ⟨first, after, rfl, hfirst, hafter⟩
    exact ⟨[first], (h _).mpr ⟨first, hfirst, rfl⟩, after, hafter, rfl⟩

/-- A character of one class with characters of another after it. -/
theorem IsClass.mem_mul_kstar_iff (h : IsClass language property)
    (h' : IsClass language' property') : word ∈ language * language'∗ ↔
      ∃ first others, word = first :: others ∧ property first ∧ others.all property' := by
  simp only [h.mem_mul_iff, h'.mem_kstar_iff]

/-- Two languages over the same characters have a product over them. -/
theorem all_of_mem_mul (h : ∀ word ∈ language, word.all property)
    (h' : ∀ word ∈ language', word.all property) :
    ∀ word ∈ language * language', word.all property := by
  intro word hword
  obtain ⟨before, hbefore, after, hafter, rfl⟩ := Language.mem_mul.mp hword
  rw [List.all_append, h before hbefore, h' after hafter, Bool.and_self]

/-! ### Longest matches -/

/-- A word of the language that a text begins with, and none of its words that the text begins with
is longer. -/
structure IsLongest (language : Language Char) (word text : List Char) : Prop where
  mem : word ∈ language
  isPrefix : word <+: text
  length_le : ∀ other ∈ language, other <+: text → other.length ≤ word.length

namespace IsLongest

/-- A word that a text begins with is a beginning of the longest one. -/
theorem prefix_of_mem (h : IsLongest language word text) {other : List Char}
    (hother : other ∈ language) (hfits : other <+: text) : other <+: word :=
  List.prefix_of_prefix_length_le hfits h.isPrefix (h.length_le other hother hfits)

/-- There is only one longest match. -/
theorem eq (h : IsLongest language word text) (h' : IsLongest language word' text) :
    word = word' :=
  (h'.prefix_of_mem h.mem h.isPrefix).eq_of_length_le (h.length_le word' h'.mem h'.isPrefix)

/-- The longest match of a text is that of a beginning of the text in which it lies. -/
theorem shorten {after : List Char} (h : IsLongest language word (text ++ after))
    (hword : word <+: text) : IsLongest language word text where
  mem := h.mem
  isPrefix := hword
  length_le other hother hfits := h.length_le other hother (hfits.trans (List.prefix_append _ _))

/-- A word is the longest match if a character follows it that no word of the language has. -/
theorem eq_of_append (h : IsLongest language word text)
    (hall : ∀ other ∈ language, other.all property) {other : List Char} {next : Char}
    (hother : other ∈ language) (hnext : property next = false)
    (hfits : other ++ next :: rest <+: text) : other = word := by
  obtain ⟨left, rfl⟩ := h.prefix_of_mem hother ((List.prefix_append _ _).trans hfits)
  cases left with
  | nil => exact (List.append_nil other).symm
  | cons first left =>
    have hsame : next = first := by
      obtain ⟨_, hword⟩ := h.isPrefix
      obtain ⟨_, hlonger⟩ := hfits
      rw [← hword, List.append_assoc, List.append_assoc] at hlonger
      exact (List.cons.inj (List.append_cancel_left hlonger)).1
    have hmem : next ∈ other ++ first :: left := by simp [hsame]
    have htrue := List.all_eq_true.mp (hall _ h.mem) next hmem
    rw [hnext] at htrue
    cases htrue

/-- The longest matches of two languages one after the other, if no word of the second one begins
with a character of the words of the first one. -/
theorem mul (h : IsLongest language word text) (htext : word ++ rest = text)
    (h' : IsLongest language' word' rest) (hall : ∀ other ∈ language, other.all property)
    (happart : ∀ first others, first :: others ∈ language' → property first = false) :
    IsLongest (language * language') (word ++ word') text where
  mem := Language.append_mem_mul h.mem h'.mem
  isPrefix := by
    rw [← htext, List.prefix_append_right_inj]
    exact h'.isPrefix
  length_le := by
    intro other hother hfits
    obtain ⟨before, hbefore, after, hafter, rfl⟩ := Language.mem_mul.mp hother
    rw [List.length_append, List.length_append]
    cases after with
    | nil =>
      rw [List.append_nil] at hfits
      have hle := h.length_le before hbefore hfits
      rw [List.length_nil]
      omega
    | cons first others =>
      -- The second part begins with a character that ends the first one, so the first parts agree.
      obtain rfl := h.eq_of_append hall hbefore (happart first others hafter) hfits
      rw [← htext, List.prefix_append_right_inj] at hfits
      have hle := h'.length_le _ hafter hfits
      omega

/-- No word of a product fits if no word of the second language fits after the longest match of the
first one. -/
theorem not_isPrefix_mul (h : IsLongest language word text) (htext : word ++ rest = text)
    (hnone : ∀ other ∈ language', ¬other <+: rest) (hall : ∀ other ∈ language, other.all property)
    (happart : ∀ first others, first :: others ∈ language' → property first = false) :
    ∀ other ∈ language * language', ¬other <+: text := by
  intro other hother hfits
  obtain ⟨before, hbefore, after, hafter, rfl⟩ := Language.mem_mul.mp hother
  cases after with
  | nil => exact hnone [] hafter List.nil_prefix
  | cons first others =>
    obtain rfl := h.eq_of_append hall hbefore (happart first others hafter) hfits
    rw [← htext, List.prefix_append_right_inj] at hfits
    exact hnone _ hafter hfits

/-- The longest match of a part that may be missing, if it is there. -/
theorem optional (h : IsLongest language word text) : IsLongest (1 + language) word text where
  mem := Or.inr h.mem
  isPrefix := h.isPrefix
  length_le := by
    rintro other (rfl | hother) hfits
    · exact Nat.zero_le _
    · exact h.length_le other hother hfits

/-- The longest match of two languages if no word of the second one fits. -/
theorem add_left (h : IsLongest language word text) (hnone : ∀ other ∈ language', ¬other <+: text) :
    IsLongest (language + language') word text where
  mem := Or.inl h.mem
  isPrefix := h.isPrefix
  length_le := by
    rintro other (hother | hother) hfits
    · exact h.length_le other hother hfits
    · exact absurd hfits (hnone other hother)

theorem add_right (h : IsLongest language' word text)
    (hnone : ∀ other ∈ language, ¬other <+: text) :
    IsLongest (language + language') word text := by
  rw [add_comm]
  exact h.add_left hnone

end IsLongest

/-- The longest match of the closure of a class are all the characters with the property. -/
theorem IsClass.isLongest_takeWhile (h : IsClass language property) (text : List Char) :
    IsLongest language∗ (text.takeWhile property) text where
  mem := h.mem_kstar_iff.mpr List.all_takeWhile
  isPrefix := List.takeWhile_prefix property
  length_le := by
    rintro other hother ⟨left, rfl⟩
    have hall := List.all_eq_true.mp (h.mem_kstar_iff.mp hother)
    rw [List.takeWhile_append_of_pos hall, List.length_append]
    exact Nat.le_add_right _ _

/-- A character of a class is the longest match of it. -/
theorem IsClass.isLongest_singleton (h : IsClass language property) {first : Char}
    (hfirst : property first) (others : List Char) :
    IsLongest language [first] (first :: others) where
  mem := (h _).mpr ⟨first, hfirst, rfl⟩
  isPrefix := List.prefix_append [first] others
  length_le := by
    intro other hother _
    obtain ⟨_, -, rfl⟩ := (h other).mp hother
    exact Nat.le_refl 1

/-- The longest match of a class with another language after it. -/
theorem IsClass.isLongest_mul (h : IsClass language property) {first : Char}
    (hfirst : property first) (h' : IsLongest language' word rest) :
    IsLongest (language * language') (first :: word) (first :: rest) where
  mem := h.mem_mul_iff.mpr ⟨first, word, rfl, hfirst, h'.mem⟩
  isPrefix := List.cons_prefix_cons.mpr ⟨rfl, h'.isPrefix⟩
  length_le := by
    intro other hother hfits
    obtain ⟨_, after, rfl, -, hafter⟩ := h.mem_mul_iff.mp hother
    exact Nat.succ_le_succ (h'.length_le after hafter (List.cons_prefix_cons.mp hfits).2)

/-! ### Languages of which no word fits -/

/-- A part that may be missing is missing if no word of it fits. -/
theorem isLongest_nil (hnone : ∀ other ∈ language, ¬other <+: text) :
    IsLongest (1 + language) [] text where
  mem := Or.inl rfl
  isPrefix := List.nil_prefix
  length_le := by
    rintro other (rfl | hother) hfits
    · exact Nat.le_refl 0
    · exact absurd hfits (hnone other hother)

/-- No word of a product fits if no word of the first language does. -/
theorem not_isPrefix_mul_of_left (hnone : ∀ other ∈ language, ¬other <+: text) :
    ∀ other ∈ language * language', ¬other <+: text := by
  intro other hother hfits
  obtain ⟨before, hbefore, after, -, rfl⟩ := Language.mem_mul.mp hother
  exact hnone before hbefore ((List.prefix_append before after).trans hfits)

/-- No word of a product fits if none of the second language does after a character of the class. -/
theorem IsClass.not_isPrefix_mul (h : IsClass language property) {first : Char}
    (hnone : property first → ∀ other ∈ language', ¬other <+: rest) :
    ∀ other ∈ language * language', ¬other <+: first :: rest := by
  intro other hother hfits
  obtain ⟨_, after, rfl, hfirst, hafter⟩ := h.mem_mul_iff.mp hother
  obtain ⟨rfl, hfits'⟩ := List.cons_prefix_cons.mp hfits
  exact hnone hfirst after hafter hfits'

end BeamCalc.Text
