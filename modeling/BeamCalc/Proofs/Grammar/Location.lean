import BeamCalc.Proofs.Grammar.Correspondence
import BeamCalc.Proofs.Token.Tiling

/-!
# Where errors point

The position of an error lies in the text, before one of its characters or at its end, and what
stands there is what the fault speaks of (`Program.ofText_locates_errors`). A token of a text stands
behind a beginning of the text (`Scans.exists_split`), and every error of the grammar points at a
token or at the end (`Grammar.Source.Located`). The error of a text that is not covered by tokens is
that of the scan, whatever the grammar would make of the tokens before it.
-/

set_option autoImplicit false
set_option relaxedAutoImplicit false

namespace BeamCalc

/-! ### Positions in a text -/

namespace Text

theorem byteLength_eq_utf8ByteSize (text : List Char) :
    byteLength text = (String.ofList text).utf8ByteSize := by
  induction text with
  | nil => rfl
  | cons first rest ih =>
    have hsplit : String.ofList (first :: rest) = String.singleton first ++ String.ofList rest := by
      rw [String.singleton_eq_ofList, ← String.ofList_append]
      rfl
    rw [byteLength, ih, hsplit, String.utf8ByteSize_append, String.utf8ByteSize_singleton]

/-- Whether a position lies before a character of a text or at its end. -/
def IsBoundary (text : String) (position : Nat) : Prop :=
  position ≤ text.utf8ByteSize ∧ (String.Pos.Raw.mk position).IsValid text

/-- Behind a beginning of a text lies a boundary. -/
theorem isBoundary_byteLength {text : String} {before after : List Char}
    (h : before ++ after = text.toList) : IsBoundary text (byteLength before) := by
  have htext : text = String.ofList before ++ String.ofList after := by
    rw [← String.ofList_append, h, String.ofList_toList]
  have hvalid : (String.Pos.Raw.mk (byteLength before)).IsValid text := by
    rw [htext, byteLength_eq_utf8ByteSize]
    exact String.Pos.Raw.isValid_rawEndPos.append_right (String.ofList after)
  exact ⟨hvalid.le_utf8ByteSize, hvalid⟩

theorem isBoundary_end (text : String) : IsBoundary text text.utf8ByteSize :=
  ⟨Nat.le_refl _, String.Pos.Raw.isValid_rawEndPos⟩

end Text

namespace Token

variable {position : Nat} {text : List Char} {tokens : List PlacedToken}

/-- A token of a text stands behind a beginning of it. -/
theorem Scans.exists_split (h : Scans position text tokens) {placed : PlacedToken}
    (hplaced : placed ∈ tokens) :
    ∃ before after, before ++ after = text ∧
      placed.position = position + Text.byteLength before := by
  induction h with
  | nil => cases hplaced
  | @separator position first rest tokens hseparator hrest ih =>
    obtain ⟨before, after, rfl, hposition⟩ := ih hplaced
    exact ⟨first :: before, after, rfl, by rw [hposition, Text.byteLength, Nat.add_assoc]⟩
  | @lexeme position first others taken rest token tokens hseparator hlexeme hrest ih =>
    rcases List.mem_cons.mp hplaced with rfl | hlater
    · exact ⟨[], _, rfl, rfl⟩
    · obtain ⟨before, after, hsplit, hposition⟩ := ih hlater
      refine ⟨taken ++ before, after, ?_, ?_⟩
      · rw [List.append_assoc, hsplit]
        exact (Lexeme.append_of_first? hlexeme).1
      · rw [hposition, Text.byteLength_append, Nat.add_assoc]

/-- A text has no tokens exactly if it is made of separators. -/
theorem scans_nil_iff :
    Scans position text [] ↔ ∀ character ∈ text, character ∈ Lexicon.separators := by
  induction text generalizing position with
  | nil => exact ⟨fun _ ↦ nofun, fun _ ↦ .nil⟩
  | cons first rest ih =>
    rw [List.forall_mem_cons]
    constructor
    · intro h
      cases h with
      | separator hseparator hrest => exact ⟨Lexicon.isSeparator_iff.mp hseparator, ih.mp hrest⟩
    · rintro ⟨hseparator, hrest⟩
      exact .separator (Lexicon.isSeparator_iff.mpr hseparator) (ih.mpr hrest)

end Token

/-! ### Errors of a text -/

/-- A sequence of two steps fails when one of them does. -/
theorem bind_eq_error_iff {failure first second : Type} {step : Except failure first}
    {next : first → Except failure second} {cause : failure} :
    (step >>= next) = .error cause ↔
      step = .error cause ∨ ∃ middle, step = .ok middle ∧ next middle = .error cause := by
  cases step with
  | error cause' =>
    change Except.error cause' = _ ↔ _
    simp
  | ok middle =>
    change next middle = _ ↔ _
    simp

/-- A located error points at the end of the text or at a token. -/
theorem Grammar.Source.Located.eq_textEnd_or_mem {source : Source} {error : ParseError}
    (h : source.Located error) :
    error.position = source.textEnd ∨ ∃ token, ⟨token, error.position⟩ ∈ source.tokens := by
  obtain ⟨fault, position⟩ := error
  cases fault with
  | emptyInput => exact .inl h.2
  | unexpectedEnd => exact .inl h
  | unexpectedCharacter => exact h.elim
  | unexpectedToken | trailingTokens =>
    obtain ⟨token, hmem, -⟩ := h
    exact .inr ⟨token, hmem⟩
  | unclosedParen => exact .inr ⟨_, h⟩
  | nestingTooDeep =>
    rcases h.2 with hmem | hmem
    · exact .inr ⟨_, hmem⟩
    · exact .inr ⟨_, hmem⟩
  | argumentCount name =>
    obtain ⟨⟨opening, hcall⟩, -⟩ := h
    exact .inr ⟨_, hcall.subset List.mem_cons_self⟩

namespace Program

open Grammar Text Lexicon

variable {vocabulary : Vocabulary} {text : String} {tokens : List PlacedToken} {error : ParseError}

/-- An error of the grammar is located. -/
theorem located_of_ofTokens {textEnd : Nat}
    (h : ofTokens vocabulary textEnd tokens = .error error) :
    Source.Located ⟨vocabulary, textEnd, tokens⟩ error := by
  have hagree := @ofTokens_corresponds ⟨vocabulary, textEnd, tokens⟩ ⟨vocabulary, textEnd, tokens⟩
    (fun _ _ _ ↦ rfl) (.refl tokens)
  dsimp only at hagree
  rw [h] at hagree
  cases hagree with
  | error h => exact h.located

/-- A text fails where its tokens end before it does, or in the grammar. -/
theorem ofText_eq_error_iff :
    ofText vocabulary text = .error error ↔ Token.ofText text = .error error ∨
      ∃ tokens, Token.ofText text = .ok tokens ∧
        ofTokens vocabulary text.utf8ByteSize tokens = .error error := by
  rw [ofText, bind_eq_error_iff]

/-- A text without tokens is made of separators. -/
theorem ofText_eq_emptyInput_iff {position : Nat} :
    ofText vocabulary text = .error ⟨.emptyInput, position⟩ ↔
      (∀ character ∈ text.toList, character ∈ separators) ∧ position = text.utf8ByteSize := by
  constructor
  · intro h
    rcases ofText_eq_error_iff.mp h with hscan | ⟨tokens, hscan, hgrammar⟩
    · obtain ⟨_, _, _, _, _, _, _, _, herror⟩ := Token.ofText_eq_error_iff_tiles.mp hscan
      cases herror
    · obtain ⟨hempty, hposition⟩ := located_of_ofTokens hgrammar
      obtain rfl : tokens = [] := hempty
      exact ⟨Token.scans_nil_iff.mp (Token.ofText_eq_ok_iff.mp hscan), hposition⟩
  · rintro ⟨hseparators, rfl⟩
    have hscan := Token.ofText_eq_ok_iff.mpr (Token.scans_nil_iff.mpr hseparators)
    exact ofText_eq_error_iff.mpr (.inr ⟨[], hscan, rfl⟩)

/-- The grammar has no say in where the scan of a text ends. -/
theorem ofText_eq_unexpectedCharacter_iff {word : String} {position : Nat} :
    ofText vocabulary text = .error ⟨.unexpectedCharacter word, position⟩ ↔
      Token.ofText text = .error ⟨.unexpectedCharacter word, position⟩ := by
  rw [ofText_eq_error_iff]
  constructor
  · rintro (hscan | ⟨tokens, -, hgrammar⟩)
    · exact hscan
    · exact (located_of_ofTokens hgrammar).elim
  · exact .inl

/-- An error of a text lies between two of its characters or at an end. There is no token exactly if
the text is made of separators. A character is unexpected exactly if neither a separator nor a
lexeme begins there and the text before it is made of both, whatever the grammar says of it. Every
other error stands where the grammar found its fault: at the end of the text, or at a token of the
kind that the fault speaks of. -/
theorem ofText_locates_errors (vocabulary : Vocabulary) (text : String) :
    (∀ error, ofText vocabulary text = .error error → IsBoundary text error.position ∧
      ((∃ word, error.fault = .unexpectedCharacter word) ∨
        ∃ tokens, Token.ofText text = .ok tokens ∧
          Source.Located ⟨vocabulary, text.utf8ByteSize, tokens⟩ error)) ∧
    (∀ position, ofText vocabulary text = .error ⟨.emptyInput, position⟩ ↔
      (∀ character ∈ text.toList, character ∈ separators) ∧ position = text.utf8ByteSize) ∧
    ∀ word position, ofText vocabulary text = .error ⟨.unexpectedCharacter word, position⟩ ↔
      ∃ before first others tokens, before ++ first :: others = text.toList ∧
        Token.Tiles (first :: others) 0 before tokens ∧ first ∉ separators ∧
        (∀ other ∈ lexeme, ¬other <+: first :: others) ∧
        word = String.singleton first ∧ position = byteLength before := by
  refine ⟨fun error h ↦ ?_, fun _ ↦ ofText_eq_emptyInput_iff, fun word position ↦ ?_⟩
  · rcases ofText_eq_error_iff.mp h with hscan | ⟨tokens, hscan, hgrammar⟩
    · obtain ⟨before, first, others, tokens, htext, -, -, -, rfl⟩ :=
        Token.ofText_eq_error_iff_tiles.mp hscan
      exact ⟨isBoundary_byteLength htext, .inl ⟨_, rfl⟩⟩
    · have hlocated := located_of_ofTokens hgrammar
      refine ⟨?_, .inr ⟨tokens, hscan, hlocated⟩⟩
      rcases hlocated.eq_textEnd_or_mem with hend | ⟨token, hmem⟩
      · rw [hend]
        exact isBoundary_end text
      · obtain ⟨before, after, hsplit, hposition⟩ :=
          (Token.ofText_eq_ok_iff.mp hscan).exists_split hmem
        have hbefore : error.position = byteLength before := by
          rw [← Nat.zero_add (byteLength before)]
          exact hposition
        rw [hbefore]
        exact isBoundary_byteLength hsplit
  · simp only [ofText_eq_unexpectedCharacter_iff, Token.ofText_eq_error_iff_tiles,
      ParseError.mk.injEq, ParseFault.unexpectedCharacter.injEq]

/-- The second argument is one too many, and the name of the function is where that is reported. -/
theorem ofText_locates_errors_arguments :
    ofText .standard "x+sin(x,y)" = .error ⟨.argumentCount "sin" 1 2, 2⟩ ∧
    IsBoundary "x+sin(x,y)" 2 ∧
    ∃ tokens, Token.ofText "x+sin(x,y)" = .ok tokens ∧
      Source.Located ⟨.standard, "x+sin(x,y)".utf8ByteSize, tokens⟩
        ⟨.argumentCount "sin" 1 2, 2⟩ := by
  have herror : ofText .standard "x+sin(x,y)" = .error ⟨.argumentCount "sin" 1 2, 2⟩ := by
    decide +kernel
  obtain ⟨hboundary, hword | hlocated⟩ :=
    (ofText_locates_errors .standard "x+sin(x,y)").1 _ herror
  · obtain ⟨word, hword⟩ := hword
    cases hword
  · exact ⟨herror, hboundary, hlocated⟩

end Program

end BeamCalc
