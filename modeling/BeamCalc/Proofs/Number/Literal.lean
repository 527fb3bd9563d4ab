import BeamCalc.Proofs.Instruction.Display

/-!
# Numerals are numbers

A numeral has at most one exponent mark, and everything before it is the mantissa
(`isMantissa_of_mem_numeral`). So each of the four marks may stand for any other
(`read?_exponentMark`), and a numeral is read as a reader does that knows `e` and `E` only, once its
marks are rewritten (`readStandard?_rewritten`). What is read is not NaN and has no sign
(`exists_read?_unsigned`). A scan therefore takes a number wherever a numeral stands
(`scan_numeral`), no text is refused at a numeral (`not_isPrefix_of_ofText_eq_error`), and no
program holds a NaN. The main statement `read?_total_on_numeral` is put together from these.
-/

set_option autoImplicit false
set_option relaxedAutoImplicit false

open scoped Computability

namespace BeamCalc.Number

open Text

variable {word before after : List Char} {mark mark' character : Char}

/-! ### Exponent marks -/

theorem not_isExponentMark_of_isMantissaChar (h : isMantissaChar character) :
    isExponentMark character = false := by
  refine Bool.eq_false_iff.mpr fun hmark ↦ ?_
  rw [not_isMantissaChar_of_isExponentMark hmark] at h
  cases h

theorem IsMantissa.not_isExponentMark (h : IsMantissa word) :
    ∀ character ∈ word, isExponentMark character = false := fun _ hcharacter ↦
  not_isExponentMark_of_isMantissaChar (List.all_eq_true.mp h.all_isMantissaChar _ hcharacter)

/-- An exponent has one mark. -/
theorem not_isExponentMark_of_mem_exponent (h : mark :: after ∈ exponent) :
    ∀ character ∈ after, isExponentMark character = false := by
  obtain ⟨_, rest, hword, -, hrest⟩ := mem_exponent_iff.mp h
  obtain ⟨-, rfl⟩ := List.cons.inj hword
  have hsign : ∀ sign ∈ 1 + oneOf ['+', '-'], sign.all fun character ↦
      !isExponentMark character := by
    rintro sign (rfl | ⟨character, hcharacter, rfl⟩)
    · rfl
    · simp only [List.mem_cons, List.not_mem_nil, or_false] at hcharacter
      rcases hcharacter with rfl | rfl <;> decide
  have hdigits : ∀ part ∈ digits, part.all fun character ↦ !isExponentMark character := by
    refine fun part hpart ↦ List.all_eq_true.mpr fun character hcharacter ↦ ?_
    have hmantissa := List.all_eq_true.mp (isMantissaChar_of_mem_digits _ hpart) _ hcharacter
    rw [not_isExponentMark_of_isMantissaChar hmantissa]
    rfl
  intro character hcharacter
  have hall := List.all_eq_true.mp (all_of_mem_mul hsign hdigits _ hrest) character hcharacter
  rwa [Bool.not_eq_true'] at hall

/-- The mark of a numeral divides it into its mantissa and its exponent. -/
theorem isMantissa_of_mem_numeral (hmark : isExponentMark mark)
    (h : before ++ mark :: after ∈ numeral) : IsMantissa before ∧ mark :: after ∈ exponent := by
  obtain ⟨mantissa, rest, hmantissa, hrest, hword⟩ := exists_mantissa_of_mem_numeral h
  have hapart : ∀ part : List Char, (∀ character ∈ part, isExponentMark character = false) →
      mark ∉ part := by
    intro part hpart hmem
    rw [hpart mark hmem] at hmark
    cases hmark
  have hbefore := hapart mantissa hmantissa.not_isExponentMark
  rcases hrest with rfl | hrest
  · rw [List.append_nil] at hword
    rw [hword] at hbefore
    exact absurd (List.mem_append_right _ List.mem_cons_self) hbefore
  · obtain ⟨first, others, rfl, -, -⟩ := mem_exponent_iff.mp hrest
    have hafter := hapart others (not_isExponentMark_of_mem_exponent hrest)
    obtain ⟨rfl, rfl, rfl⟩ := (List.append_cons_inj_of_notMem hbefore hafter).mp hword
    exact ⟨hmantissa, hrest⟩

/-- The mark of an exponent does not matter to it. -/
theorem exponent?_mark (hmark : isExponentMark mark) (hmark' : isExponentMark mark') :
    exponent? (mark' :: after) = exponent? (mark :: after) := by
  rw [exponent?, exponent?, if_pos hmark, if_pos hmark']

/-- Each exponent mark may stand for any other. -/
theorem read?_exponentMark (hmark : isExponentMark mark) (hmark' : isExponentMark mark')
    (h : before ++ mark :: after ∈ numeral) : before ++ mark' :: after ∈ numeral ∧
      read? (before ++ mark' :: after) = read? (before ++ mark :: after) := by
  obtain ⟨hmantissa, hexponent⟩ := isMantissa_of_mem_numeral hmark h
  obtain ⟨_, _, hword, -, hrest⟩ := mem_exponent_iff.mp hexponent
  obtain ⟨-, rfl⟩ := List.cons.inj hword
  have hexponent' : mark' :: after ∈ exponent := mem_exponent_iff.mpr ⟨_, _, rfl, hmark', hrest⟩
  have h' := hmantissa.append_mem_numeral (.inr hexponent')
  obtain ⟨number, places, hdecimal⟩ := hmantissa.exists_decimal?_append
  refine ⟨h', ?_⟩
  rw [read?_of_mem_numeral h', read?_of_mem_numeral h, hdecimal _ (.inr hexponent'),
    hdecimal _ (.inr hexponent), exponent?_mark hmark hmark']

/-! ### The standard marks -/

/-- Whether a character is one of the marks that double precision numerals have. -/
def isDoubleMark (character : Char) : Bool :=
  character == 'd' || character == 'D'

/-- What a reader reads that knows the exponent marks `e` and `E` only. -/
def readStandard? (text : List Char) : Option Float :=
  if text.any isDoubleMark then none else read? text

/-- The mark that a reader knows in place of one of these. -/
def standardMark (character : Char) : Char :=
  if isDoubleMark character then 'e' else character

/-- A text with the mark `e` in place of `d` and `D`. -/
def rewritten (text : List Char) : List Char :=
  text.map standardMark

theorem standardMark_eq_self (h : isExponentMark character = false) :
    standardMark character = character := by
  rw [isExponentMark, Bool.or_assoc, Bool.or_eq_false_iff] at h
  rw [standardMark, isDoubleMark, h.2, if_neg Bool.false_ne_true]

theorem isExponentMark_standardMark (h : isExponentMark mark) :
    isExponentMark (standardMark mark) := by
  unfold standardMark
  split
  · rfl
  · exact h

theorem not_isDoubleMark_standardMark (character : Char) :
    isDoubleMark (standardMark character) = false := by
  unfold standardMark
  split
  · rfl
  · rename_i hother
    exact Bool.eq_false_iff.mpr hother

/-- A text without exponent marks stays as it is. -/
theorem rewritten_eq_self (h : ∀ character ∈ word, isExponentMark character = false) :
    rewritten word = word :=
  (List.map_congr_left fun _ hcharacter ↦ standardMark_eq_self (h _ hcharacter)).trans
    (List.map_id' word)

/-- A reader that knows the standard marks only reads a rewritten text like any other. -/
theorem readStandard?_eq_read? (text : List Char) :
    readStandard? (rewritten text) = read? (rewritten text) := by
  have hnone : (rewritten text).any isDoubleMark = false := by
    refine List.any_eq_false.mpr fun character hcharacter ↦ ?_
    obtain ⟨before, -, rfl⟩ := List.mem_map.mp hcharacter
    exact Bool.eq_false_iff.mp (not_isDoubleMark_standardMark before)
  rw [readStandard?, hnone, if_neg Bool.false_ne_true]

/-- A numeral is read as it is with the standard marks. -/
theorem readStandard?_rewritten (h : word ∈ numeral) :
    rewritten word ∈ numeral ∧ readStandard? (rewritten word) = read? word := by
  rw [readStandard?_eq_read?]
  obtain ⟨mantissa, after, hmantissa, hafter, rfl⟩ := exists_mantissa_of_mem_numeral h
  have hkept := rewritten_eq_self hmantissa.not_isExponentMark
  rcases hafter with rfl | hexponent
  · rw [List.append_nil] at h ⊢
    rw [hkept]
    exact ⟨h, rfl⟩
  · obtain ⟨mark, rest, rfl, hmark, -⟩ := mem_exponent_iff.mp hexponent
    have hrewritten : rewritten (mantissa ++ mark :: rest) =
        mantissa ++ standardMark mark :: rest := by
      have hafter := rewritten_eq_self (not_isExponentMark_of_mem_exponent hexponent)
      rw [rewritten] at hkept hafter
      rw [rewritten, List.map_append, List.map_cons, hkept, hafter]
    rw [hrewritten]
    exact read?_exponentMark hmark (isExponentMark_standardMark hmark) h

/-! ### Numerals in a text -/

/-- A numeral is read as a number without a sign. -/
theorem exists_read?_unsigned (h : word ∈ numeral) :
    ∃ value, read? word = some value ∧ ¬value.isNaN ∧ isNegative value = false := by
  obtain ⟨pattern, hle, hread⟩ := exists_pattern_of_mem_numeral h
  exact ⟨_, hread, not_isNaN_ofPattern hle, isNegative_ofPattern hle⟩

/-- Where a numeral stands, a scan takes the number that it is read as. -/
theorem scan_numeral (h : IsLongest numeral word (word ++ after)) (position : Nat) :
    ∃ value, read? word = some value ∧ Token.scan position (word ++ after) =
      (Token.scan (position + byteLength word) after).map (⟨.number value, position⟩ :: ·) := by
  obtain ⟨value, hvalue⟩ := exists_read?_of_mem_numeral h.mem
  exact ⟨value, hvalue, Token.scan_word (Lexicon.isLongest_of_numeral h) (.number h.mem hvalue)⟩

/-- No text is refused where a numeral stands. -/
theorem not_isPrefix_of_ofText_eq_error {text : String} {error : ParseError}
    (h : Token.ofText text = .error error) :
    ∃ before after, before ++ after = text.toList ∧ error.position = byteLength before ∧
      ∀ word ∈ numeral, ¬word <+: after := by
  obtain ⟨before, first, others, _, htext, -, -, hnone, rfl⟩ :=
    Token.ofText_eq_error_iff_tiles.mp h
  exact ⟨before, first :: others, htext, rfl, fun word hword ↦ hnone word (.inl (.inl hword))⟩

/-- Every numeral is read as a number that is not NaN and has no sign, whichever mark its exponent
has, as it would be with the standard marks. So a scan takes a number wherever a numeral stands, no
text is refused at a numeral, and no program holds a NaN. -/
theorem read?_total_on_numeral :
    (∀ word ∈ numeral, ∃ value,
      read? word = some value ∧ ¬value.isNaN ∧ isNegative value = false) ∧
    (∀ before mark mark' after, isExponentMark mark → isExponentMark mark' →
      before ++ mark :: after ∈ numeral → before ++ mark' :: after ∈ numeral ∧
        read? (before ++ mark' :: after) = read? (before ++ mark :: after)) ∧
    (∀ word ∈ numeral, rewritten word ∈ numeral ∧ readStandard? (rewritten word) = read? word) ∧
    (∀ word after position, IsLongest numeral word (word ++ after) →
      ∃ value, read? word = some value ∧ Token.scan position (word ++ after) =
        (Token.scan (position + byteLength word) after).map (⟨.number value, position⟩ :: ·)) ∧
    (∀ text error, Token.ofText text = .error error →
      ∃ before after, before ++ after = text.toList ∧ error.position = byteLength before ∧
        ∀ word ∈ numeral, ¬word <+: after) ∧
    ∀ vocabulary text program, Program.ofText vocabulary text = .ok program →
      ∀ value, .number value ∈ program.instructions → ¬value.isNaN :=
  ⟨fun _ ↦ exists_read?_unsigned, fun _ _ _ _ ↦ read?_exponentMark,
    fun _ ↦ readStandard?_rewritten, fun _ _ position h ↦ scan_numeral h position,
    fun _ _ ↦ not_isPrefix_of_ofText_eq_error,
    fun _ _ _ h _ hvalue ↦ Program.isWritten_of_ofText h _ hvalue⟩

/-- A double precision numeral before a name and before a character that begins no word, and a
program with a sign that is taken into the number. -/
theorem read?_total_on_numeral_double :
    (∃ value, read? ['.', '5', 'd', '3'] = some value ∧ ¬value.isNaN ∧ isNegative value = false) ∧
    read? ['.', '5', 'E', '3'] = read? ['.', '5', 'd', '3'] ∧
    readStandard? ['.', '5', 'e', '3'] = read? ['.', '5', 'd', '3'] ∧
    (∃ value, read? ['.', '5', 'd', '3'] = some value ∧ Token.scan 0 ['.', '5', 'd', '3', 'x'] =
      (Token.scan 4 ['x']).map (⟨.number value, 0⟩ :: ·)) ∧
    (∃ before after, before ++ after = ['.', '5', 'd', '3', '$'] ∧ 4 = byteLength before ∧
      ∀ word ∈ numeral, ¬word <+: after) ∧
    ∀ value, .number value ∈ [Instruction.number (-500), .negate] → ¬value.isNaN := by
  obtain ⟨hread, hmark, hstandard, hscan, herror, hprogram⟩ := read?_total_on_numeral
  have hspan : numeralSpan? ['.', '5', 'd', '3', 'x'] = some (['.', '5', 'd', '3'], ['x']) := by
    decide
  have hlongest := isLongest_numeralSpan? hspan
  have hrefused : Token.ofText ".5d3$" = .error ⟨.unexpectedCharacter "$", 4⟩ := by decide +kernel
  have hcompiled : Program.ofText .standard "--.5d3" = .ok ⟨[.number (-500), .negate]⟩ := by
    decide +kernel
  exact ⟨hread _ hlongest.mem, (hmark ['.', '5'] 'd' 'E' ['3'] rfl rfl hlongest.mem).2,
    (hstandard _ hlongest.mem).2, hscan _ ['x'] 0 hlongest, herror _ _ hrefused,
    hprogram _ _ _ hcompiled⟩

end BeamCalc.Number
