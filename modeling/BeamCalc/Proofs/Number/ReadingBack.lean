import BeamCalc.Proofs.Number.Float
import BeamCalc.Proofs.Number.Shortest
import BeamCalc.Proofs.Number.Syntax

/-!
# Reading back what is written

`IsTextOf` says that a text of digits, with or without a point among them, stands for a decimal that
rounds to a pattern. The shortest decimal of a finite pattern is such a text (`isTextOf_text`), also
with the decimal place that a result shows after a whole number (`isTextOf_text_zero`). So a number
is read back from its text, with its sign, and so are the infinities and what is no number
(`read?_plain`, `read?_report`). What a numeral is read as is always a number
(`not_isNaN_of_mem_numeral`).
-/

set_option autoImplicit false
set_option relaxedAutoImplicit false

open scoped Computability

namespace BeamCalc.Number

open Text

variable {text whole fraction : List Char} {pattern : Nat}

/-! ### Digits -/

theorem naturalOf_concat (digits : List Char) (digit : Char) :
    naturalOf (digits ++ [digit]) = 10 * naturalOf digits + digitValue digit := by
  rw [naturalOf, List.foldl_append]
  rfl

theorem naturalOf_append_zeros (digits : List Char) (zeros : Nat) :
    naturalOf (digits ++ List.replicate zeros '0') = naturalOf digits * 10 ^ zeros := by
  induction zeros with
  | zero => rw [List.replicate_zero, List.append_nil, Nat.pow_zero, Nat.mul_one]
  | succ zeros ih =>
    have hzero : digitValue '0' = 0 := rfl
    rw [List.replicate_succ', ← List.append_assoc, naturalOf_concat, ih, hzero, Nat.pow_succ]
    ring

theorem naturalOf_zeros_append (zeros : Nat) (digits : List Char) :
    naturalOf (List.replicate zeros '0' ++ digits) = naturalOf digits := by
  induction zeros with
  | zero => rfl
  | succ zeros ih =>
    rw [List.replicate_succ]
    exact ih

/-- The digits of a number write it. -/
theorem naturalOf_digitText (number : Nat) : naturalOf (Decimal.digitText number) = number := by
  induction number using Nat.strong_induction_on with
  | _ number ih =>
    have hdigit : digitValue (number % 10).digitChar = number % 10 :=
      Nat.toNat_digitChar_sub_48_of_lt_ten (Nat.mod_lt _ (by decide))
    by_cases hsmall : number < 10
    · have hmod : number % 10 = number := Nat.mod_eq_of_lt hsmall
      rw [hmod] at hdigit
      rw [Decimal.digitText, Nat.toDigits_of_lt_base hsmall]
      change 10 * 0 + digitValue _ = _
      rw [hdigit]
      omega
    · have hlarge : 10 ≤ number := by omega
      have hshorter := ih (number / 10) (by omega)
      rw [Decimal.digitText] at hshorter
      rw [Decimal.digitText, Nat.toDigits_of_base_le (by decide) hlarge, naturalOf_concat,
        hshorter, hdigit]
      omega

theorem digitText_mem_digits (number : Nat) : Decimal.digitText number ∈ digits :=
  mem_digits_iff.mpr ⟨Nat.toDigits_ne_nil, List.all_eq_true.mpr fun _ hdigit ↦
    Nat.isDigit_of_mem_toDigits (by decide) (by decide) hdigit⟩

/-! ### Texts of a pattern -/

/-- A text of digits, or of digits on both sides of a point, that stands for a decimal which rounds
to a pattern. -/
inductive IsTextOf (pattern : Nat) : List Char → Prop where
  | whole {whole : List Char} (hwhole : whole ∈ digits)
      (hnearest : Decimal.nearest ⟨naturalOf whole, 0⟩ = pattern) : IsTextOf pattern whole
  | point {whole fraction : List Char} (hwhole : whole ∈ digits) (hfraction : fraction ∈ digits)
      (hnearest : Decimal.nearest ⟨naturalOf (whole ++ fraction), -(fraction.length : Int)⟩ =
        pattern) : IsTextOf pattern (whole ++ '.' :: fraction)

namespace IsTextOf

theorem isMantissa (h : IsTextOf pattern text) : IsMantissa text := by
  cases h with
  | whole hwhole => exact .whole hwhole
  | point hwhole hfraction =>
    obtain ⟨hsome, hall⟩ := mem_digits_iff.mp hwhole
    exact .point hall (mem_digits_iff.mp hfraction).2 (.inl hsome)

theorem mem_numeral (h : IsTextOf pattern text) : text ∈ numeral := by
  have hnumeral := h.isMantissa.append_mem_numeral (.inl rfl)
  rwa [List.append_nil] at hnumeral

/-- A text of a pattern is read as a decimal that rounds to it. -/
theorem exists_decimal? (h : IsTextOf pattern text) :
    ∃ decimal, decimal? text = some decimal ∧ decimal.nearest = pattern := by
  have hnil : ∀ first others, ([] : List Char) = first :: others → first.isDigit = false :=
    fun _ _ h ↦ nomatch h
  cases h with
  | whole hwhole hnearest =>
    obtain ⟨hsome, hall⟩ := mem_digits_iff.mp hwhole
    have htaken : takeDigits text = (text, []) := by
      rw [← takeDigits_append_of_head hall hnil, List.append_nil]
    refine ⟨_, ?_, hnearest⟩
    rw [decimal?, takeMantissa, htaken]
    dsimp only
    rw [if_neg fun hnone ↦ hsome hnone.1, List.append_nil]
    rfl
  | @point whole fraction hwhole hfraction hnearest =>
    obtain ⟨hsome, hall⟩ := mem_digits_iff.mp hwhole
    have hpoint : ∀ first others, '.' :: fraction = first :: others → first.isDigit = false := by
      intro first others hfirst
      rw [← (List.cons.inj hfirst).1]
      rfl
    have htaken : takeDigits fraction = (fraction, []) := by
      rw [← takeDigits_append_of_head (mem_digits_iff.mp hfraction).2 hnil, List.append_nil]
    have hmantissa : takeMantissa (whole ++ '.' :: fraction) = (whole, fraction, []) := by
      rw [takeMantissa, takeDigits_append_of_head hall hpoint]
      change (whole, (takeDigits fraction).1, (takeDigits fraction).2) = _
      rw [htaken]
    refine ⟨_, ?_, hnearest⟩
    rw [decimal?, hmantissa]
    dsimp only
    rw [if_neg fun hnone ↦ hsome hnone.1, ← Int.zero_sub]
    rfl

/-- A text of a pattern is read as the number of the pattern, with its sign. -/
theorem read? (h : IsTextOf pattern text) (negative : Bool) :
    Number.read? (if negative then '-' :: text else text) = some (ofPattern negative pattern) := by
  obtain ⟨decimal, hdecimal, rfl⟩ := h.exists_decimal?
  obtain ⟨first, others, rfl, hfirst⟩ := exists_head_of_mem_numeral h.mem_numeral
  have hsign : takeSign (if negative then '-' :: first :: others else first :: others) =
      (negative, first :: others) := by
    cases negative with
    | false => exact takeSign_of_isMantissaChar hfirst others
    | true => rfl
  rw [Number.read?, hsign]
  dsimp only
  rw [hdecimal]

end IsTextOf

/-! ### The texts of decimals -/

variable {decimal : Decimal}

/-- The text of a decimal without places after the point consists of digits. -/
theorem exists_whole_of_text (h : 0 ≤ decimal.exponent) : ∃ whole ∈ digits, decimal.text = whole ∧
    Decimal.nearest ⟨naturalOf whole, 0⟩ = decimal.nearest := by
  obtain ⟨number, exponent⟩ := decimal
  obtain ⟨zeros, rfl⟩ : ∃ zeros, exponent = .ofNat zeros := Int.eq_ofNat_of_zero_le h
  obtain ⟨hsome, hall⟩ := mem_digits_iff.mp (digitText_mem_digits number)
  refine ⟨Decimal.digitText number ++ List.replicate zeros '0', ?_, rfl, ?_⟩
  · refine mem_digits_iff.mpr ⟨List.append_ne_nil_of_left_ne_nil hsome _, ?_⟩
    rw [List.all_append, hall, Bool.true_and]
    exact List.all_eq_true.mpr fun digit hdigit ↦ (List.mem_replicate.mp hdigit).2 ▸ rfl
  · rw [naturalOf_append_zeros, naturalOf_digitText, Decimal.nearest_mul_pow]

/-- The text of a decimal with places after the point has digits on both sides of it. -/
theorem exists_fraction_of_text (number places : Nat) : ∃ whole ∈ digits, ∃ fraction ∈ digits,
    Decimal.text ⟨number, .negSucc places⟩ = whole ++ '.' :: fraction ∧
      naturalOf (whole ++ fraction) = number ∧ fraction.length = places + 1 := by
  obtain ⟨-, hall⟩ := mem_digits_iff.mp (digitText_mem_digits number)
  obtain ⟨padded, hpadded⟩ : ∃ padded, padded = List.replicate (places + 2 -
      (Decimal.digitText number).length) '0' ++ Decimal.digitText number := ⟨_, rfl⟩
  have hlength : places + 2 ≤ padded.length := by
    rw [hpadded, List.length_append, List.length_replicate]
    omega
  have hdigits : padded.all Char.isDigit := by
    rw [hpadded, List.all_append, hall, Bool.and_true]
    exact List.all_eq_true.mpr fun digit hdigit ↦ (List.mem_replicate.mp hdigit).2 ▸ rfl
  have hmem : ∀ part, part.length ≠ 0 → (∀ digit ∈ part, digit ∈ padded) → part ∈ digits := by
    intro part hpart hsub
    refine mem_digits_iff.mpr ⟨fun hnil ↦ hpart (List.length_eq_zero_iff.mpr hnil), ?_⟩
    exact List.all_eq_true.mpr fun digit hdigit ↦
      List.all_eq_true.mp hdigits digit (hsub digit hdigit)
  refine ⟨padded.take (padded.length - (places + 1)), hmem _ ?_ fun _ ↦ List.mem_of_mem_take,
    padded.drop (padded.length - (places + 1)), hmem _ ?_ fun _ ↦ List.mem_of_mem_drop, ?_, ?_, ?_⟩
  · rw [List.length_take]
    omega
  · rw [List.length_drop]
    omega
  · rw [Decimal.text, hpadded]
  · rw [List.take_append_drop, hpadded, naturalOf_zeros_append, naturalOf_digitText]
  · rw [List.length_drop]
    omega

/-- The positional text of a decimal stands for it. -/
theorem isTextOf_text (h : decimal.nearest = pattern) : IsTextOf pattern decimal.text := by
  obtain ⟨number, exponent⟩ := decimal
  match exponent with
  | .ofNat zeros =>
    obtain ⟨whole, hwhole, htext, hnearest⟩ :=
      @exists_whole_of_text ⟨number, .ofNat zeros⟩ (Int.natCast_nonneg zeros)
    rw [htext]
    exact .whole hwhole (hnearest.trans h)
  | .negSucc places =>
    obtain ⟨whole, hwhole, fraction, hfraction, htext, hnumber, hlength⟩ :=
      exists_fraction_of_text number places
    rw [htext]
    refine .point hwhole hfraction ?_
    rw [hnumber, hlength]
    exact h

/-- A decimal place after a whole number makes no difference. -/
theorem isTextOf_text_zero (h : decimal.nearest = pattern) (hexponent : 0 ≤ decimal.exponent) :
    IsTextOf pattern (decimal.text ++ ['.', '0']) := by
  obtain ⟨whole, hwhole, htext, hnearest⟩ := exists_whole_of_text hexponent
  have hten : naturalOf (whole ++ ['0']) = 10 * naturalOf whole := naturalOf_concat whole '0'
  rw [htext]
  refine .point hwhole (mem_digits_iff.mpr ⟨List.cons_ne_nil _ _, rfl⟩) ?_
  rw [hten, Decimal.nearest_ten_mul]
  exact hnearest.trans h

/-! ### Texts of numbers -/

variable {magnitude : Nat → List Char} {value : Float}

/-- A number is read back from its text if its magnitude is. -/
theorem read?_signedText (h : ∀ pattern < Magnitude.infinity, IsTextOf pattern (magnitude pattern))
    (value : Float) : read? (signedText magnitude value).toList = some value := by
  unfold signedText
  dsimp only
  split
  · rename_i hnone
    rw [eq_ofPattern_of_lt hnone]
    rfl
  · rename_i hnumber
    have hle := Nat.le_of_not_lt hnumber
    rw [String.toList_ofList]
    by_cases hinfinite : patternOf value = Magnitude.infinity
    · have hread : ∀ negative, read? (if negative then '-' :: "inf".toList else "inf".toList) =
          some (ofPattern negative Magnitude.infinity) := by
        intro negative
        cases negative <;> rfl
      rw [if_pos hinfinite, hread, ← hinfinite, ofPattern_patternOf]
    · rw [if_neg hinfinite, (h _ (Nat.lt_of_le_of_ne hle hinfinite)).read?, ofPattern_patternOf]

theorem isTextOf_plain (hfinite : pattern < Magnitude.infinity) :
    IsTextOf pattern (shortest pattern).text :=
  isTextOf_text (nearest_shortest hfinite)

theorem isTextOf_report (hfinite : pattern < Magnitude.infinity) : IsTextOf pattern
    (if isShortInteger pattern then (shortest pattern).text ++ ".0".toList
      else (shortest pattern).text) := by
  split
  · rename_i hshort
    exact isTextOf_text_zero (nearest_shortest hfinite) (exponent_shortest hfinite hshort)
  · exact isTextOf_plain hfinite

/-- The shortest text of a number is read as the number. -/
theorem read?_plain (value : Float) : read? (plain value).toList = some value :=
  read?_signedText (fun _ hfinite ↦ isTextOf_plain hfinite) value

/-- The text of a result is read as the result. -/
theorem read?_report (value : Float) : read? (report value).toList = some value :=
  read?_signedText (fun _ hfinite ↦ isTextOf_report hfinite) value

/-- Different numbers have different texts. -/
theorem plain_injective : Function.Injective plain := by
  intro first second h
  have hfirst := read?_plain first
  rw [h, read?_plain second] at hfirst
  exact (Option.some.inj hfirst).symm

/-! ### Numerals -/

/-- A numeral is read as a number without a sign. -/
theorem exists_pattern_of_mem_numeral (h : text ∈ numeral) :
    ∃ pattern ≤ Magnitude.infinity, read? text = some (ofPattern false pattern) := by
  obtain ⟨decimal, hdecimal⟩ := exists_decimal?_of_mem_numeral h
  refine ⟨decimal.nearest, decimal.nearest_le, ?_⟩
  rw [read?_of_mem_numeral h, hdecimal]
  rfl

/-- What a numeral is read as is a number or infinity. -/
theorem not_isNaN_of_mem_numeral (h : text ∈ numeral) (hvalue : read? text = some value) :
    ¬value.isNaN := by
  obtain ⟨pattern, hle, hread⟩ := exists_pattern_of_mem_numeral h
  rw [← Option.some.inj (hread.symm.trans hvalue)]
  exact not_isNaN_ofPattern hle

end BeamCalc.Number
