import BeamCalc.Proofs.Number.ReadingBack
import BeamCalc.Proofs.Token.Spacing

/-!
# Tokens of displayed tokens

The text of a finite token is a word that writes the token (`Spells.text`): a numeral is displayed
as another numeral in general, but as one that is read as the same number. A blank ends every word,
so words with single blanks between them are a tiling (`tiles_displayText`). So what a text has for
tokens is what the displayed tokens have for tokens, and displaying them once more changes nothing
(`ofText_display`).
-/

set_option autoImplicit false
set_option relaxedAutoImplicit false

namespace BeamCalc

open Text

/-! ### The text of a token -/

namespace Number

variable {negative : Bool} {pattern : Nat}

/-- The text of a finite number that is made from a sign and a pattern. -/
theorem toList_plain_ofPattern (h : pattern < Magnitude.infinity) :
    (plain (ofPattern negative pattern)).toList =
      if negative then '-' :: (shortest pattern).text else (shortest pattern).text := by
  have hle := Nat.le_of_lt h
  rw [plain, signedText, patternOf_ofPattern hle, isNegative_ofPattern hle]
  dsimp only
  rw [if_neg (Nat.lt_asymm h), if_neg (Nat.ne_of_lt h), String.toList_ofList]

end Number

namespace Token

open Lexicon

variable {word : List Char} {token : Token} {tokens : List Token}

theorem Spells.mem_lexeme (h : Spells word token) : word ∈ lexeme := by
  cases h with
  | number hword => exact .inl (.inl hword)
  | name hword => exact .inl (.inr hword)
  | mark sign => exact .inr (mem_mark_iff.mpr ⟨sign, rfl⟩)

/-- The text of a finite token is a word that writes the token. -/
theorem Spells.text (h : Spells word token)
    (hfinite : ∀ value, token = .number value → value.isFinite) :
    Spells token.text.toList token := by
  cases h with
  | @number _ value hword hvalue =>
    obtain ⟨pattern, hle, hread⟩ := Number.exists_pattern_of_mem_numeral hword
    obtain rfl := Option.some.inj (hvalue.symm.trans hread)
    have hpattern := Number.isFinite_iff.mp (hfinite _ rfl)
    rw [Number.patternOf_ofPattern hle] at hpattern
    have htext := Number.isTextOf_plain hpattern
    rw [Token.text, Number.toList_plain_ofPattern hpattern]
    exact .number htext.mem_numeral (htext.read? false)
  | name hword =>
    rw [Token.text, String.toList_ofList]
    exact .name hword
  | mark sign =>
    rw [Token.text, String.toList_singleton]
    exact .mark sign

/-! ### Texts of tokens -/

/-- The texts of tokens with single blanks between them. -/
def display (tokens : List Token) : String :=
  " ".intercalate (tokens.map text)

/-- The characters of the displayed tokens. -/
def displayText (tokens : List Token) : List Char :=
  [' '].intercalate (tokens.map fun token ↦ token.text.toList)

/-- The tokens where they stand when they are displayed from a position on. -/
def spaced (position : Nat) : List Token → List PlacedToken
  | [] => []
  | token :: tokens =>
    ⟨token, position⟩ :: spaced (position + byteLength token.text.toList + ' '.utf8Size) tokens

theorem toList_display (tokens : List Token) : (display tokens).toList = displayText tokens := by
  rw [display, String.toList_intercalate, List.map_map]
  rfl

theorem map_token_spaced (position : Nat) (tokens : List Token) :
    (spaced position tokens).map PlacedToken.token = tokens := by
  induction tokens generalizing position with
  | nil => rfl
  | cons token tokens ih => rw [spaced, List.map_cons, ih]

/-- A word is the longest one where nothing follows it. -/
theorem isLongest_alone (h : word ∈ lexeme) : IsLongest lexeme word (word ++ []) := by
  rw [List.append_nil]
  exact ⟨h, List.prefix_refl word, fun _ _ hfits ↦ hfits.length_le⟩

/-- The texts of tokens with single blanks between them are cut into these texts. -/
theorem tiles_displayText (h : ∀ token ∈ tokens, Spells token.text.toList token) (position : Nat) :
    Tiles [] position (displayText tokens) (spaced position tokens) := by
  induction tokens generalizing position with
  | nil => exact .nil
  | cons token tokens ih =>
    obtain ⟨hspells, hrest⟩ := List.forall_mem_cons.mp h
    have hlongest := isLongest_alone hspells.mem_lexeme
    match tokens with
    | [] =>
      rw [displayText, List.map_singleton, List.intercalate_singleton]
      exact .single hlongest hspells
    | next :: others =>
      have htext : displayText (token :: next :: others) =
          token.text.toList ++ ' ' :: displayText (next :: others) := by
        rw [displayText, List.map_cons, List.map_cons, List.intercalate_cons_cons,
          List.append_assoc]
        rfl
      rw [htext]
      refine .word ?_ hspells (.separator List.mem_cons_self (ih hrest _))
      rw [List.append_nil]
      exact isLongest_before_divider (isDivider_of_separator List.mem_cons_self) _ hlongest

/-- Tokens that words write and whose numbers are finite are the tokens of what they are displayed
as. -/
theorem ofText_display_of_spells (h : ∀ token ∈ tokens, ∃ word, Spells word token)
    (hfinite : ∀ value, .number value ∈ tokens → value.isFinite) :
    ofText (display tokens) = .ok (spaced 0 tokens) := by
  rw [ofText_eq_ok_iff_tiles, toList_display]
  refine tiles_displayText (fun token htoken ↦ ?_) 0
  obtain ⟨word, hword⟩ := h token htoken
  refine hword.text fun value hvalue ↦ hfinite value ?_
  rwa [← hvalue]

/-! ### Displaying the tokens of a text -/

/-- The tokens of a text, displayed. -/
def redisplay (text : String) : Except ParseError String :=
  (ofText text).map fun tokens ↦ display (tokens.map PlacedToken.token)

/-- The tokens of a text are those of what they are displayed as, if the numbers among them are
finite, and displaying them twice is displaying them once. -/
theorem ofText_display {text : String} {tokens : List PlacedToken} (h : ofText text = .ok tokens)
    (hfinite : ∀ value, .number value ∈ tokens.map PlacedToken.token → value.isFinite) :
    ∃ again, ofText (display (tokens.map PlacedToken.token)) = .ok again ∧
      again.map PlacedToken.token = tokens.map PlacedToken.token ∧
      (redisplay text >>= redisplay) = redisplay text := by
  have hspells := (ofText_eq_ok_iff_tiles.mp h).exists_spells
  have hagain := ofText_display_of_spells (List.forall_mem_map.mpr hspells) hfinite
  refine ⟨_, hagain, map_token_spaced 0 _, ?_⟩
  rw [redisplay, h]
  change redisplay (display (tokens.map PlacedToken.token)) = _
  rw [redisplay, hagain]
  change Except.ok (display ((spaced 0 _).map PlacedToken.token)) = _
  rw [map_token_spaced]
  rfl

/-- Two numerals are displayed in another way, and the tokens that touched no longer do. -/
theorem ofText_display_touching :
    ∃ again, ofText "0.5 * x' + 1000" = .ok again ∧
      again.map PlacedToken.token =
        [.number 0.5, .mark .times, .name "x'", .mark .plus, .number 1000] ∧
      (redisplay ".5*x'+1d3" >>= redisplay) = redisplay ".5*x'+1d3" := by
  have htokens : ofText ".5*x'+1d3" = .ok [⟨.number 0.5, 0⟩, ⟨.mark .times, 2⟩, ⟨.name "x'", 3⟩,
      ⟨.mark .plus, 5⟩, ⟨.number 1000, 6⟩] := by
    decide +kernel
  have hdisplay : display [.number 0.5, .mark .times, .name "x'", .mark .plus, .number 1000] =
      "0.5 * x' + 1000" := by
    decide +kernel
  have hfinite : ∀ value, .number value ∈
      [Token.number 0.5, .mark .times, .name "x'", .mark .plus, .number 1000] →
        value.isFinite := by
    intro value hvalue
    have hvalues : value = 0.5 ∨ value = 1000 := by simpa using hvalue
    rcases hvalues with rfl | rfl <;> decide +kernel
  have hagain := ofText_display htokens hfinite
  rw [← hdisplay]
  exact hagain

end Token

end BeamCalc
