import BeamCalc.Number.Numeral
import BeamCalc.Proofs.Text.LongestMatch

/-!
# The syntax of numerals

A numeral is written as one of two regular expressions (`numeral`): digits, optionally a point with
digits, or a point with at least one digit, and either with an optional exponent. `numeralSpan?`
finds the longest numeral at the beginning of a text, if there is one (`isLongest_numeralSpan?`,
`not_isPrefix_of_numeralSpan?`). Its parts are found one after the other, each as the longest match
of its own expression; an exponent mark that no digit follows is given back. Every numeral is a
mantissa with an exponent or none (`exists_mantissa_of_mem_numeral`), and it is read as the number
nearest to the decimal that it writes (`read?_of_mem_numeral`, `exists_read?_of_mem_numeral`).
-/

set_option autoImplicit false
set_option relaxedAutoImplicit false

open scoped Computability

namespace BeamCalc.Number

open Text

/-! ### Regular expressions -/

/-- One digit. -/
def digit : Language Char :=
  between '0' '9'

/-- At least one digit. -/
def digits : Language Char :=
  digit * digit∗

/-- The point of a numeral. -/
def point : Language Char :=
  oneOf ['.']

/-- An exponent: its mark, an optional sign and at least one digit. -/
def exponent : Language Char :=
  oneOf ['e', 'E', 'd', 'D'] * ((1 + oneOf ['+', '-']) * digits)

/-- Digits, an optional point with or without digits after it, and an optional exponent. -/
def ledNumeral : Language Char :=
  digits * (1 + point * digit∗) * (1 + exponent)

/-- A point, at least one digit and an optional exponent. -/
def pointNumeral : Language Char :=
  point * digits * (1 + exponent)

/-- The unsigned numerals. -/
def numeral : Language Char :=
  ledNumeral + pointNumeral

variable {word text : List Char}

theorem isClass_digit : IsClass digit Char.isDigit :=
  (isClass_between '0' '9').congr fun _ ↦ rfl

theorem mem_digits_iff : word ∈ digits ↔ word ≠ [] ∧ word.all Char.isDigit := by
  rw [digits, isClass_digit.mem_mul_kstar_iff isClass_digit]
  constructor
  · rintro ⟨first, others, rfl, hfirst, hothers⟩
    rw [List.all_cons, hfirst, hothers]
    exact ⟨List.cons_ne_nil _ _, rfl⟩
  · rintro ⟨hne, hall⟩
    match word with
    | [] => exact absurd rfl hne
    | first :: others =>
      rw [List.all_cons, Bool.and_eq_true] at hall
      exact ⟨first, others, rfl, hall⟩

theorem isClass_point : IsClass point fun character ↦ decide (character ∈ ['.']) :=
  isClass_oneOf ['.']

theorem mem_point_mul_iff {language : Language Char} :
    word ∈ point * language ↔ ∃ after ∈ language, word = '.' :: after := by
  simp only [isClass_point.mem_mul_iff, List.mem_singleton, decide_eq_true_eq]
  constructor
  · rintro ⟨_, after, hword, rfl, hafter⟩
    exact ⟨after, hafter, hword⟩
  · rintro ⟨after, hafter, hword⟩
    exact ⟨'.', after, hword, rfl, hafter⟩

theorem isClass_exponentMark : IsClass (oneOf ['e', 'E', 'd', 'D']) isExponentMark := by
  refine (isClass_oneOf _).congr fun character ↦ ?_
  simp [isExponentMark, Bool.or_assoc, beq_eq_decide]

theorem mem_exponent_iff : word ∈ exponent ↔ ∃ mark after, word = mark :: after ∧
    isExponentMark mark ∧ after ∈ (1 + oneOf ['+', '-']) * digits :=
  isClass_exponentMark.mem_mul_iff

/-! ### Longest parts of a numeral -/

theorem isLongest_takeDigits (text : List Char) : IsLongest digit∗ (takeDigits text).1 text :=
  isClass_digit.isLongest_takeWhile text

/-- If there are digits, they are the longest match of at least one digit. -/
theorem isLongest_digits (h : (takeDigits text).1 ≠ []) :
    IsLongest digits (takeDigits text).1 text where
  mem := mem_digits_iff.mpr ⟨h, List.all_takeWhile⟩
  isPrefix := (isLongest_takeDigits text).isPrefix
  length_le other hother :=
    (isLongest_takeDigits text).length_le other
      (isClass_digit.mem_kstar_iff.mpr (mem_digits_iff.mp hother).2)

theorem not_isPrefix_digits (h : (takeDigits text).1 = []) : ∀ word ∈ digits, ¬word <+: text := by
  intro word hword hfits
  obtain ⟨hne, hall⟩ := mem_digits_iff.mp hword
  have hnone := (isLongest_takeDigits text).prefix_of_mem (isClass_digit.mem_kstar_iff.mpr hall)
    hfits
  rw [h, List.prefix_nil] at hnone
  exact hne hnone

theorem isLongest_signSpan (text : List Char) :
    IsLongest (1 + oneOf ['+', '-']) (signSpan text).1 text := by
  have hsign := isClass_oneOf ['+', '-']
  unfold signSpan
  split
  · exact (hsign.isLongest_singleton rfl _).optional
  · exact (hsign.isLongest_singleton rfl _).optional
  · rename_i hminus hplus
    refine isLongest_nil ?_
    rintro _ ⟨character, hcharacter, rfl⟩ ⟨left, rfl⟩
    simp only [List.mem_cons, List.not_mem_nil, or_false] at hcharacter
    rcases hcharacter with rfl | rfl
    · exact hplus left rfl
    · exact hminus left rfl

/-- The digits after a point, which needs one if there is none before it. -/
def fraction (led : Bool) : Language Char :=
  if led then digit∗ else digits

theorem isLongest_fraction {led : Bool} (h : (led || !(takeDigits text).1.isEmpty) = true) :
    IsLongest (fraction led) (takeDigits text).1 text := by
  cases led with
  | true => exact isLongest_takeDigits text
  | false => exact isLongest_digits (by simpa using h)

/-- A point with the digits after it, or nothing. -/
def pointPart (led : Bool) : Language Char :=
  1 + point * fraction led

theorem eq_nil_or_point_of_mem_pointPart {led : Bool} (h : word ∈ pointPart led) :
    word = [] ∨ ∃ after, after.all Char.isDigit ∧ word = '.' :: after := by
  refine h.imp_right fun hpoint ↦ ?_
  obtain ⟨after, hafter, hword⟩ := mem_point_mul_iff.mp hpoint
  refine ⟨after, ?_, hword⟩
  cases led with
  | true => exact isClass_digit.mem_kstar_iff.mp hafter
  | false => exact (mem_digits_iff.mp hafter).2

theorem isLongest_pointSpan (led : Bool) (text : List Char) :
    IsLongest (pointPart led) (pointSpan led text).1 text := by
  unfold pointSpan
  split
  · dsimp only
    split
    · rename_i hfound
      exact (isClass_point.isLongest_mul rfl (isLongest_fraction hfound)).optional
    · rename_i hnone
      obtain ⟨rfl, hdigits⟩ : led = false ∧ _ = [] := by simpa using hnone
      exact isLongest_nil (isClass_point.not_isPrefix_mul fun _ ↦ not_isPrefix_digits hdigits)
  · rename_i hpoint
    refine isLongest_nil ?_
    rintro word hword ⟨left, rfl⟩
    obtain ⟨after, -, rfl⟩ := mem_point_mul_iff.mp hword
    exact hpoint _ rfl

theorem not_isDigit_of_mem_sign :
    ∀ sign ∈ 1 + oneOf ['+', '-'], sign.all fun character ↦ !character.isDigit := by
  rintro sign (rfl | ⟨character, hcharacter, rfl⟩)
  · rfl
  · simp only [List.mem_cons, List.not_mem_nil, or_false] at hcharacter
    rcases hcharacter with rfl | rfl <;> decide

theorem isDigit_of_mem_digits (first : Char) (others : List Char) (h : first :: others ∈ digits) :
    (!first.isDigit) = false := by
  have hall := (mem_digits_iff.mp h).2
  rw [List.all_cons, Bool.and_eq_true] at hall
  rw [hall.1]
  rfl

/-- The sign at the beginning of an exponent is no digit, so where it ends does not depend on the
digits that follow. -/
theorem isLongest_exponentSpan (text : List Char) :
    IsLongest (1 + exponent) (exponentSpan text).1 text := by
  unfold exponentSpan
  split
  · refine isLongest_nil ?_
    intro word hword hfits
    obtain ⟨_, _, rfl, -⟩ := mem_exponent_iff.mp hword
    cases List.prefix_nil.mp hfits
  · rename_i mark rest
    have hsign := isLongest_signSpan rest
    dsimp only
    split
    · rename_i hfound
      rw [Bool.and_eq_true, Bool.not_eq_true', List.isEmpty_eq_false_iff] at hfound
      have hafter := hsign.mul (signSpan_append rest) (isLongest_digits hfound.2)
        not_isDigit_of_mem_sign isDigit_of_mem_digits
      exact (isClass_exponentMark.isLongest_mul hfound.1 hafter).optional
    · rename_i hnone
      refine isLongest_nil (isClass_exponentMark.not_isPrefix_mul fun hmark ↦ ?_)
      have hdigits : (takeDigits (signSpan rest).2).1 = [] := by simpa [hmark] using hnone
      exact hsign.not_isPrefix_mul (signSpan_append rest) (not_isPrefix_digits hdigits)
        not_isDigit_of_mem_sign isDigit_of_mem_digits

/-! ### Longest numerals -/

/-- The characters of a numeral before its exponent. -/
def isMantissaChar (character : Char) : Bool :=
  character.isDigit || character == '.'

theorem isMantissaChar_of_isDigit (h : word.all Char.isDigit) : word.all isMantissaChar := by
  refine List.all_eq_true.mpr fun character hcharacter ↦ ?_
  rw [isMantissaChar, List.all_eq_true.mp h character hcharacter, Bool.true_or]

theorem isMantissaChar_of_mem_digits : ∀ word ∈ digits, word.all isMantissaChar := fun _ hword ↦
  isMantissaChar_of_isDigit (mem_digits_iff.mp hword).2

theorem isMantissaChar_of_mem_pointPart (led : Bool) :
    ∀ word ∈ pointPart led, word.all isMantissaChar := by
  intro word hword
  rcases eq_nil_or_point_of_mem_pointPart hword with rfl | ⟨after, hafter, rfl⟩
  · rfl
  · rw [List.all_cons, isMantissaChar_of_isDigit hafter]
    rfl

theorem not_isDigit_of_mem_pointPart (led : Bool) (first : Char) (others : List Char)
    (h : first :: others ∈ pointPart led) : first.isDigit = false := by
  rcases eq_nil_or_point_of_mem_pointPart h with h | ⟨after, -, h⟩
  · cases h
  · rw [(List.cons.inj h).1]
    rfl

theorem not_isMantissaChar_of_isExponentMark {mark : Char} (h : isExponentMark mark) :
    isMantissaChar mark = false := by
  have hletter : mark = 'e' ∨ mark = 'E' ∨ mark = 'd' ∨ mark = 'D' := by
    simpa [isExponentMark, or_assoc] using h
  rcases hletter with rfl | rfl | rfl | rfl <;> decide

theorem not_isMantissaChar_of_exponent (first : Char) (others : List Char)
    (h : first :: others ∈ 1 + exponent) : isMantissaChar first = false := by
  rcases h with h | h
  · cases h
  · obtain ⟨mark, _, hword, hmark, -⟩ := mem_exponent_iff.mp h
    rw [(List.cons.inj hword).1]
    exact not_isMantissaChar_of_isExponentMark hmark

/-- Where digits stand, the longest numeral with digits before the point is what the three spans
find. -/
theorem isLongest_ledNumeral (h : (takeDigits text).1 ≠ []) :
    IsLongest ledNumeral ((takeDigits text).1 ++ (pointSpan true (takeDigits text).2).1 ++
      (exponentSpan (pointSpan true (takeDigits text).2).2).1) text := by
  have hmantissa : IsLongest (digits * (1 + point * digit∗))
      ((takeDigits text).1 ++ (pointSpan true (takeDigits text).2).1) text :=
    (isLongest_digits h).mul (takeDigits_append text) (isLongest_pointSpan true _)
      (fun _ hword ↦ (mem_digits_iff.mp hword).2) (not_isDigit_of_mem_pointPart true)
  refine hmantissa.mul ?_ (isLongest_exponentSpan _)
    (all_of_mem_mul isMantissaChar_of_mem_digits (isMantissaChar_of_mem_pointPart true))
    not_isMantissaChar_of_exponent
  rw [List.append_assoc, pointSpan_append, takeDigits_append]

/-- Where a point with a digit after it stands, the longest numeral that begins with the point is
what the two spans find. -/
theorem isLongest_pointNumeral (h : (pointSpan false text).1 ≠ []) :
    IsLongest pointNumeral
      ((pointSpan false text).1 ++ (exponentSpan (pointSpan false text).2).1) text := by
  have hpoint := isLongest_pointSpan false text
  have hmantissa : IsLongest (point * digits) (pointSpan false text).1 text :=
    ⟨hpoint.mem.resolve_left h, hpoint.isPrefix,
      fun other hother ↦ hpoint.length_le other (Or.inr hother)⟩
  exact hmantissa.mul (pointSpan_append false text) (isLongest_exponentSpan _)
    (fun word hword ↦ isMantissaChar_of_mem_pointPart false word (Or.inr hword))
    not_isMantissaChar_of_exponent

theorem not_isPrefix_ledNumeral (h : (takeDigits text).1 = []) :
    ∀ word ∈ ledNumeral, ¬word <+: text :=
  not_isPrefix_mul_of_left (not_isPrefix_mul_of_left (not_isPrefix_digits h))

theorem not_isPrefix_pointNumeral_of_digits (h : (takeDigits text).1 ≠ []) :
    ∀ word ∈ pointNumeral, ¬word <+: text := by
  refine not_isPrefix_mul_of_left ?_
  rintro word hword ⟨left, rfl⟩
  obtain ⟨after, -, rfl⟩ := mem_point_mul_iff.mp hword
  exact h rfl

theorem not_isPrefix_pointNumeral_of_point (h : (pointSpan false text).1 = []) :
    ∀ word ∈ pointNumeral, ¬word <+: text := by
  refine not_isPrefix_mul_of_left ?_
  intro word hword hfits
  have hnone := (isLongest_pointSpan false text).prefix_of_mem (Or.inr hword) hfits
  obtain ⟨after, -, rfl⟩ := mem_point_mul_iff.mp hword
  rw [h, List.prefix_nil] at hnone
  cases hnone

theorem rest_of_no_digits (h : (takeDigits text).1 = []) : (takeDigits text).2 = text := by
  have happend := takeDigits_append text
  rwa [h, List.nil_append] at happend

/-- What `numeralSpan?` finds is the longest numeral that the text begins with. -/
theorem isLongest_numeralSpan? {rest : List Char} (h : numeralSpan? text = some (word, rest)) :
    IsLongest numeral word text := by
  unfold numeralSpan? at h
  dsimp only at h
  split at h
  · cases h
  · rename_i hsome
    obtain ⟨rfl, rfl⟩ := Prod.mk.inj (Option.some.inj h)
    by_cases hwhole : (takeDigits text).1 = []
    · rw [hwhole, rest_of_no_digits hwhole] at hsome ⊢
      have hpoint : (pointSpan false text).1 ≠ [] := by simpa using hsome
      exact (isLongest_pointNumeral hpoint).add_right (not_isPrefix_ledNumeral hwhole)
    · have hled : (!(takeDigits text).1.isEmpty) = true := by simpa using hwhole
      rw [hled]
      exact (isLongest_ledNumeral hwhole).add_left (not_isPrefix_pointNumeral_of_digits hwhole)

/-- Where `numeralSpan?` finds nothing, the text does not begin with a numeral. -/
theorem not_isPrefix_of_numeralSpan? (h : numeralSpan? text = none) :
    ∀ word ∈ numeral, ¬word <+: text := by
  unfold numeralSpan? at h
  dsimp only at h
  split at h
  · rename_i hnone
    rw [Bool.and_eq_true, List.isEmpty_iff, List.isEmpty_iff] at hnone
    obtain ⟨hwhole, hpoint⟩ := hnone
    rw [hwhole, rest_of_no_digits hwhole] at hpoint
    rintro word (hword | hword)
    · exact not_isPrefix_ledNumeral hwhole word hword
    · exact not_isPrefix_pointNumeral_of_point hpoint word hword
  · cases h

/-! ### Reading numerals -/

/-- What a numeral has before its exponent: digits, or a point with digits on at least one of its
sides. -/
inductive IsMantissa : List Char → Prop where
  | whole {whole : List Char} (hwhole : whole ∈ digits) : IsMantissa whole
  | point {whole fraction : List Char} (hwhole : whole.all Char.isDigit)
      (hfraction : fraction.all Char.isDigit) (hsome : whole ≠ [] ∨ fraction ≠ []) :
    IsMantissa (whole ++ '.' :: fraction)

theorem IsMantissa.ne_nil (h : IsMantissa word) : word ≠ [] := by
  cases h with
  | whole hwhole => exact (mem_digits_iff.mp hwhole).1
  | point => simp

theorem IsMantissa.all_isMantissaChar (h : IsMantissa word) : word.all isMantissaChar := by
  cases h with
  | whole hwhole => exact isMantissaChar_of_mem_digits _ hwhole
  | point hwhole hfraction hsome =>
    rw [List.all_append, List.all_cons, isMantissaChar_of_isDigit hwhole,
      isMantissaChar_of_isDigit hfraction]
    rfl

theorem exists_mantissa_of_mem_numeral (h : word ∈ numeral) :
    ∃ mantissa after, IsMantissa mantissa ∧ after ∈ 1 + exponent ∧ mantissa ++ after = word := by
  rcases h with h | h
  · obtain ⟨mantissa, hmantissa, after, hafter, rfl⟩ := Language.mem_mul.mp h
    obtain ⟨whole, hwhole, rest, hrest, rfl⟩ := Language.mem_mul.mp hmantissa
    refine ⟨_, after, ?_, hafter, rfl⟩
    have hpart : rest ∈ pointPart true := hrest
    rcases eq_nil_or_point_of_mem_pointPart hpart with rfl | ⟨fraction, hfraction, rfl⟩
    · rw [List.append_nil]
      exact .whole hwhole
    · obtain ⟨hne, hall⟩ := mem_digits_iff.mp hwhole
      exact .point hall hfraction (Or.inl hne)
  · obtain ⟨mantissa, hmantissa, after, hafter, rfl⟩ := Language.mem_mul.mp h
    obtain ⟨fraction, hfraction, rfl⟩ := mem_point_mul_iff.mp hmantissa
    obtain ⟨hne, hall⟩ := mem_digits_iff.mp hfraction
    exact ⟨_, after, @IsMantissa.point [] fraction rfl hall (Or.inr hne), hafter, rfl⟩

/-- What a numeral has before its exponent may have any exponent, or none. -/
theorem IsMantissa.append_mem_numeral {mantissa after : List Char} (h : IsMantissa mantissa)
    (hafter : after ∈ 1 + exponent) : mantissa ++ after ∈ numeral := by
  cases h with
  | whole hwhole =>
    refine .inl (Language.mem_mul.mpr ⟨mantissa, ?_, after, hafter, rfl⟩)
    exact Language.mem_mul.mpr ⟨mantissa, hwhole, [], .inl rfl, List.append_nil mantissa⟩
  | @point whole fraction hwhole hfraction hsome =>
    by_cases hnone : whole = []
    · obtain rfl := hnone
      have hdigits : fraction ∈ digits :=
        mem_digits_iff.mpr ⟨hsome.resolve_left fun h ↦ h rfl, hfraction⟩
      exact .inr (Language.mem_mul.mpr
        ⟨_, mem_point_mul_iff.mpr ⟨fraction, hdigits, rfl⟩, after, hafter, rfl⟩)
    · have hdigits : whole ∈ digits := mem_digits_iff.mpr ⟨hnone, hwhole⟩
      have hpoint : '.' :: fraction ∈ Number.point * digit∗ :=
        mem_point_mul_iff.mpr ⟨fraction, isClass_digit.mem_kstar_iff.mpr hfraction, rfl⟩
      refine .inl (Language.mem_mul.mpr ⟨_, ?_, after, hafter, rfl⟩)
      exact Language.mem_mul.mpr ⟨whole, hdigits, _, .inr hpoint, rfl⟩

/-- Digits end where another character stands. -/
theorem takeDigits_append_of_head {unsigned rest : List Char} (hall : unsigned.all Char.isDigit)
    (hhead : ∀ first others, rest = first :: others → first.isDigit = false) :
    takeDigits (unsigned ++ rest) = (unsigned, rest) := by
  have hdigits := List.all_eq_true.mp hall
  rw [takeDigits, List.takeWhile_append_of_pos hdigits, List.dropWhile_append_of_pos hdigits]
  cases rest with
  | nil => simp
  | cons first others =>
    have hfirst := hhead first others rfl
    simp [hfirst]

theorem takeSign_of_isMantissaChar {first : Char} (h : isMantissaChar first) (others : List Char) :
    takeSign (first :: others) = (false, first :: others) := by
  unfold takeSign
  split
  · rename_i hminus
    rw [(List.cons.inj hminus).1] at h
    cases h
  · rename_i hplus
    rw [(List.cons.inj hplus).1] at h
    cases h
  · rfl

/-- The sign of an exponent is read as a sign. -/
theorem takeSign_append {sign unsigned : List Char} (hsign : sign ∈ 1 + oneOf ['+', '-'])
    (hunsigned : unsigned ∈ digits) : (takeSign (sign ++ unsigned)).2 = unsigned := by
  rcases hsign with rfl | ⟨character, hcharacter, rfl⟩
  · match unsigned with
    | [] => rfl
    | first :: others =>
      have hall := isMantissaChar_of_mem_digits _ hunsigned
      rw [List.all_cons, Bool.and_eq_true] at hall
      rw [List.nil_append, takeSign_of_isMantissaChar hall.1]
  · have hcases : character = '+' ∨ character = '-' := by simpa using hcharacter
    rcases hcases with rfl | rfl <;> rfl

theorem exists_exponent?_of_mem (h : word ∈ 1 + exponent) :
    ∃ value, exponent? word = some value := by
  rcases h with rfl | h
  · exact ⟨0, rfl⟩
  · obtain ⟨mark, after, rfl, hmark, hafter⟩ := mem_exponent_iff.mp h
    obtain ⟨sign, hsign, unsigned, hunsigned, rfl⟩ := Language.mem_mul.mp hafter
    have htaken := takeSign_append hsign hunsigned
    have hdigits := mem_digits_iff.mp hunsigned
    rw [exponent?, if_pos hmark]
    dsimp only
    rw [htaken, if_pos hdigits]
    exact ⟨_, rfl⟩

/-- The digits of a mantissa are those before and after its point, whatever the exponent is. -/
theorem IsMantissa.exists_takeMantissa {mantissa : List Char} (h : IsMantissa mantissa) :
    ∃ whole fraction, ¬(whole = [] ∧ fraction = []) ∧
      ∀ after ∈ 1 + exponent, takeMantissa (mantissa ++ after) = (whole, fraction, after) := by
  have hdigit : ∀ after ∈ 1 + exponent, ∀ first others, after = first :: others →
      first.isDigit = false := by
    rintro after hafter first others rfl
    exact (Bool.or_eq_false_iff.mp (not_isMantissaChar_of_exponent first others hafter)).1
  cases h with
  | whole hwhole =>
    obtain ⟨hne, hall⟩ := mem_digits_iff.mp hwhole
    refine ⟨mantissa, [], fun hnone ↦ hne hnone.1, fun after hafter ↦ ?_⟩
    rw [takeMantissa, takeDigits_append_of_head hall (hdigit after hafter)]
    dsimp only
    split
    · have hpoint := not_isMantissaChar_of_exponent _ _ hafter
      cases hpoint
    · rfl
  | @point whole fraction hwhole hfraction hsome =>
    refine ⟨whole, fraction, not_and_or.mpr hsome, fun after hafter ↦ ?_⟩
    have hpoint : ∀ first others, '.' :: (fraction ++ after) = first :: others →
        first.isDigit = false := by
      intro first others hfirst
      rw [← (List.cons.inj hfirst).1]
      rfl
    rw [takeMantissa, List.append_assoc, List.cons_append, takeDigits_append_of_head hwhole hpoint]
    change (whole, (takeDigits (fraction ++ after)).1, (takeDigits (fraction ++ after)).2) = _
    rw [takeDigits_append_of_head hfraction (hdigit after hafter)]

/-- An exponent moves the point of the number that stands before it. -/
theorem IsMantissa.exists_decimal?_append {mantissa : List Char} (h : IsMantissa mantissa) :
    ∃ number places : Nat, ∀ after ∈ 1 + exponent, decimal? (mantissa ++ after) =
      (exponent? after).map fun exponent ↦ ⟨number, exponent - places⟩ := by
  obtain ⟨whole, fraction, hsome, htaken⟩ := h.exists_takeMantissa
  refine ⟨naturalOf (whole ++ fraction), fraction.length, fun after hafter ↦ ?_⟩
  rw [decimal?, htaken after hafter]
  exact if_neg hsome

theorem exists_decimal?_of_mem_numeral (h : word ∈ numeral) :
    ∃ decimal, decimal? word = some decimal := by
  obtain ⟨mantissa, after, hmantissa, hafter, rfl⟩ := exists_mantissa_of_mem_numeral h
  obtain ⟨number, places, hdecimal⟩ := hmantissa.exists_decimal?_append
  obtain ⟨value, hvalue⟩ := exists_exponent?_of_mem hafter
  rw [hdecimal after hafter, hvalue]
  exact ⟨_, rfl⟩

/-- A numeral begins with a digit or a point. -/
theorem exists_head_of_mem_numeral (h : word ∈ numeral) :
    ∃ first others, word = first :: others ∧ isMantissaChar first := by
  obtain ⟨mantissa, after, hmantissa, -, rfl⟩ := exists_mantissa_of_mem_numeral h
  match mantissa with
  | [] => exact absurd rfl hmantissa.ne_nil
  | first :: others =>
    have hall := hmantissa.all_isMantissaChar
    rw [List.all_cons, Bool.and_eq_true] at hall
    exact ⟨first, others ++ after, rfl, hall.1⟩

/-- A numeral has no sign of its own, and it is read as the decimal that it writes. -/
theorem read?_of_mem_numeral (h : word ∈ numeral) :
    read? word = (decimal? word).map fun decimal ↦ ofPattern false decimal.nearest := by
  obtain ⟨decimal, hdecimal⟩ := exists_decimal?_of_mem_numeral h
  obtain ⟨first, others, rfl, hfirst⟩ := exists_head_of_mem_numeral h
  rw [read?, takeSign_of_isMantissaChar hfirst]
  dsimp only
  rw [hdecimal]
  rfl

/-- Every numeral is read as a number. -/
theorem exists_read?_of_mem_numeral (h : word ∈ numeral) : ∃ value, read? word = some value := by
  obtain ⟨decimal, hdecimal⟩ := exists_decimal?_of_mem_numeral h
  rw [read?_of_mem_numeral h, hdecimal]
  exact ⟨_, rfl⟩

end BeamCalc.Number
