import BeamCalc.Proofs.Token.Concatenation
import BeamCalc.Proofs.Token.Lexicon

/-!
# Tilings of a text

`Tiles` says that a text is a row of separators and words, each word the longest that begins where
it stands. A tiling ends at the end of the text or where neither a separator nor a word begins
(`exists_tiles`), and a scan takes one token for each word of it (`scan_of_tiles`). So the tokens of
a text are those of a tiling of all of it, and the one error is the first character that no tiling
passes (`ofText_maximalMunch`).
-/

set_option autoImplicit false
set_option relaxedAutoImplicit false

namespace BeamCalc.Token

open Text Lexicon

variable {position : Nat} {word before after text others : List Char} {first : Char}
  {token : Token} {tokens : List PlacedToken}

/-- A text that starts at a position and is followed by another is made up of separators and longest
words, and these tokens are what the words write. -/
inductive Tiles (after : List Char) : Nat → List Char → List PlacedToken → Prop where
  | nil {position : Nat} : Tiles after position [] []
  | separator {position : Nat} {first : Char} {rest : List Char} {tokens : List PlacedToken}
      (hseparator : first ∈ separators)
      (hrest : Tiles after (position + first.utf8Size) rest tokens) :
    Tiles after position (first :: rest) tokens
  | word {position : Nat} {word rest : List Char} {token : Token} {tokens : List PlacedToken}
      (hlongest : IsLongest lexeme word (word ++ (rest ++ after))) (hspells : Spells word token)
      (hrest : Tiles after (position + byteLength word) rest tokens) :
    Tiles after position (word ++ rest) (⟨token, position⟩ :: tokens)

/-- Every token of a tiling is written by a word. -/
theorem Tiles.exists_spells (h : Tiles after position text tokens) :
    ∀ placed ∈ tokens, ∃ word, Spells word placed.token := by
  induction h with
  | nil => exact fun _ hmem ↦ absurd hmem List.not_mem_nil
  | separator hseparator hrest ih => exact ih
  | word hlongest hspells hrest ih => exact List.forall_mem_cons.mpr ⟨⟨_, hspells⟩, ih⟩

/-! ### Dividers -/

/-- A word that is the longest one stays so when a divider follows the text. -/
theorem isLongest_before_divider {divider : Char} (hdivider : IsDivider divider)
    (tail : List Char) (h : IsLongest lexeme word (word ++ after)) :
    IsLongest lexeme word (word ++ (after ++ divider :: tail)) := by
  obtain ⟨token, hspells⟩ := exists_spells h.mem
  have hfirst := first?_eq_some_iff.mpr ⟨rfl, h, hspells⟩
  match word with
  | [] => exact absurd rfl (ne_nil_of_mem_lexeme h.mem)
  | first :: others =>
    have hdivided := hdivider.first?_append tail first (others ++ after)
    rw [List.append_assoc, ← List.cons_append, ← List.cons_append, hfirst] at hdivided
    exact (first?_eq_some_iff.mp hdivided).2.1

/-- Where no word begins, none begins when a divider follows the text. -/
theorem not_isPrefix_before_divider {divider : Char} (hdivider : IsDivider divider)
    (tail : List Char) (h : ∀ word ∈ lexeme, ¬word <+: first :: others) :
    ∀ word ∈ lexeme, ¬word <+: first :: (others ++ divider :: tail) := by
  rw [← first?_eq_none_iff, hdivider.first?_append, first?_eq_none_iff.mpr h]
  rfl

/-! ### Steps of a scan -/

theorem isSeparator_eq_false_iff : isSeparator first = false ↔ first ∉ separators := by
  rw [← isSeparator_iff, Bool.not_eq_true]

/-- A scan takes the longest word. -/
theorem scan_word (hlongest : IsLongest lexeme word (word ++ after)) (hspells : Spells word token) :
    scan position (word ++ after) =
      (scan (position + byteLength word) after).map (⟨token, position⟩ :: ·) := by
  have hlexeme := first?_eq_some_iff.mpr ⟨rfl, hlongest, hspells⟩
  match word with
  | [] => exact absurd rfl (ne_nil_of_mem_lexeme hlongest.mem)
  | first :: left =>
    refine scan_lexeme (isSeparator_eq_false_iff.mpr fun hseparator ↦ ?_) hlexeme
    exact not_isPrefix_of_separator hseparator _ hlongest.mem hlongest.isPrefix

/-- A scan fails where neither a separator nor a word begins. -/
theorem scan_stuck (hseparator : first ∉ separators)
    (hnone : ∀ word ∈ lexeme, ¬word <+: first :: others) :
    scan position (first :: others) =
      .error ⟨.unexpectedCharacter (String.singleton first), position⟩ := by
  rw [scan, if_neg (mt isSeparator_iff.mp hseparator)]
  have hnothing := first?_eq_none_iff.mpr hnone
  split
  · rfl
  · rename_i hfound
    rw [hnothing] at hfound
    cases hfound
  · rename_i hfound
    rw [hnothing] at hfound
    cases hfound

/-! ### Tilings and scans -/

/-- A scan passes a tiling and goes on with what follows it. -/
theorem scan_of_tiles (h : Tiles after position before tokens) :
    scan position (before ++ after) =
      (scan (position + byteLength before) after).map (tokens ++ ·) := by
  induction h with
  | nil =>
    change scan _ after = (scan _ after).map id
    rw [byteLength, Nat.add_zero]
    cases scan _ after <;> rfl
  | @separator position first rest tokens hseparator hrest ih =>
    rw [List.cons_append, scan_separator (isSeparator_iff.mpr hseparator), ih, byteLength,
      Nat.add_assoc]
  | @word position word rest token tokens hlongest hspells hrest ih =>
    rw [List.append_assoc, scan_word hlongest hspells, ih, byteLength_append, Nat.add_assoc]
    cases scan _ after <;> rfl

/-- Every text has a tiling that ends with the text or where nothing can follow. -/
theorem exists_tiles (position : Nat) (text : List Char) :
    ∃ before after tokens, before ++ after = text ∧ Tiles after position before tokens ∧
      ∀ first others, after = first :: others →
        first ∉ separators ∧ ∀ word ∈ lexeme, ¬word <+: first :: others := by
  match text with
  | [] => exact ⟨[], [], [], rfl, .nil, fun _ _ h ↦ nomatch h⟩
  | first :: rest =>
    by_cases hseparator : first ∈ separators
    · obtain ⟨before, after, tokens, rfl, htiles, hstuck⟩ :=
        exists_tiles (position + first.utf8Size) rest
      exact ⟨first :: before, after, tokens, rfl, .separator hseparator htiles, hstuck⟩
    · match hfound : Lexeme.first? (first :: rest) with
      | none =>
        refine ⟨[], first :: rest, [], rfl, .nil, ?_⟩
        intro _ _ hsame
        obtain ⟨rfl, rfl⟩ := List.cons.inj hsame
        exact ⟨hseparator, first?_eq_none_iff.mp hfound⟩
      | some lexeme =>
        obtain ⟨hlongest, token, -, hspells⟩ := isLongest_of_first? hfound
        have htext := (Lexeme.append_of_first? hfound).1
        have hshorter := Lexeme.length_rest_lt_of_first? hfound
        obtain ⟨before, after, tokens, hrest, htiles, hstuck⟩ :=
          exists_tiles (position + byteLength lexeme.taken) lexeme.rest
        rw [← htext, ← hrest] at hlongest
        refine ⟨lexeme.taken ++ before, after, ⟨token, position⟩ :: tokens, ?_,
          .word hlongest hspells htiles, hstuck⟩
        rw [List.append_assoc, hrest, htext]
termination_by text.length
decreasing_by
  · exact Nat.lt_succ_self _
  · exact hshorter

/-- A text has the tokens of its tiling. -/
theorem ofText_eq_ok_iff_tiles {text : String} :
    ofText text = .ok tokens ↔ Tiles [] 0 text.toList tokens := by
  constructor
  · intro hok
    obtain ⟨before, after, tokens', htext, htiles, hstuck⟩ := exists_tiles 0 text.toList
    rw [ofText, ← htext, scan_of_tiles htiles] at hok
    match after with
    | [] =>
      rw [scan] at hok
      obtain rfl : tokens' = tokens := by simpa [Except.map] using hok
      rw [← htext, List.append_nil]
      exact htiles
    | first :: others =>
      obtain ⟨hseparator, hnone⟩ := hstuck first others rfl
      rw [scan_stuck hseparator hnone] at hok
      cases hok
  · intro htiles
    have hscan := scan_of_tiles htiles
    rw [List.append_nil, scan] at hscan
    rw [ofText, hscan]
    simp [Except.map]

/-- A text has an error where its tiling ends before it does. -/
theorem ofText_eq_error_iff_tiles {text : String} {error : ParseError} :
    ofText text = .error error ↔ ∃ before first others tokens,
      before ++ first :: others = text.toList ∧ Tiles (first :: others) 0 before tokens ∧
      first ∉ separators ∧ (∀ word ∈ lexeme, ¬word <+: first :: others) ∧
      error = ⟨.unexpectedCharacter (String.singleton first), byteLength before⟩ := by
  constructor
  · intro herror
    obtain ⟨before, after, tokens, htext, htiles, hstuck⟩ := exists_tiles 0 text.toList
    rw [ofText, ← htext, scan_of_tiles htiles] at herror
    match after with
    | [] =>
      rw [scan] at herror
      cases herror
    | first :: others =>
      obtain ⟨hseparator, hnone⟩ := hstuck first others rfl
      rw [scan_stuck hseparator hnone, Nat.zero_add] at herror
      cases herror
      exact ⟨before, first, others, tokens, htext, htiles, hseparator, hnone, rfl⟩
  · rintro ⟨before, first, others, tokens, htext, htiles, hseparator, hnone, rfl⟩
    rw [ofText, ← htext, scan_of_tiles htiles, scan_stuck hseparator hnone, Nat.zero_add]
    rfl

/-- A text is cut into separators and longest words. Its tokens are those that the words write, each
where its word begins, if that covers the text, and the text is refused at the first character that
begins neither if it does not. -/
theorem ofText_maximalMunch (text : String) :
    (∀ tokens, ofText text = .ok tokens ↔ Tiles [] 0 text.toList tokens) ∧
    (∀ tokens, ofText text = .ok tokens →
      tokens.Pairwise fun placed later ↦ placed.position < later.position) ∧
    (∀ error, ofText text = .error error ↔ ∃ before first others tokens,
      before ++ first :: others = text.toList ∧ Tiles (first :: others) 0 before tokens ∧
      first ∉ separators ∧ (∀ word ∈ lexeme, ¬word <+: first :: others) ∧
      error = ⟨.unexpectedCharacter (String.singleton first), byteLength before⟩) ∧
    ∀ word ∈ lexeme, ∃! token, Spells word token :=
  ⟨fun _ ↦ ofText_eq_ok_iff_tiles,
    fun _ hok ↦ (ofText_eq_ok_iff.mp hok).pairwise_position,
    fun _ ↦ ofText_eq_error_iff_tiles, fun _ ↦ existsUnique_spells⟩

/-- A name takes the point and the letter after it, and ends before the mark. -/
theorem ofText_maximalMunch_sum :
    Tiles [] 0 "x.y+ z".toList
      [⟨.name "x.y", 0⟩, ⟨.mark .plus, 3⟩, ⟨.name "z", 5⟩] ∧
    [⟨.name "x.y", 0⟩, ⟨.mark .plus, 3⟩, ⟨.name "z", 5⟩].Pairwise
      (fun placed later : PlacedToken ↦ placed.position < later.position) ∧
    ∃! token, Spells ['x', '.', 'y'] token := by
  have htokens : ofText "x.y+ z" =
      .ok [⟨.name "x.y", 0⟩, ⟨.mark .plus, 3⟩, ⟨.name "z", 5⟩] := by
    decide +kernel
  have hname : ['x', '.', 'y'] ∈ lexeme :=
    Or.inl (Or.inr (mem_name_iff.mpr ⟨'x', ['.', 'y'], rfl, rfl, rfl⟩))
  obtain ⟨htiles, hordered, -, hunique⟩ := ofText_maximalMunch "x.y+ z"
  exact ⟨(htiles _).mp htokens, hordered _ htokens, hunique _ hname⟩

end BeamCalc.Token
