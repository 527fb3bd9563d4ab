import BeamCalc.Proofs.Token.Likeness
import BeamCalc.Proofs.Token.Tiling

/-!
# Spacing

Separators between the words of a text may be more or fewer, others, or none where words end of
themselves (`Respaces`). The tokens are the same then, and a sign touches a number in the one text
if it does in the other (`scansAlike_ofText`). This is why no separator may come between a sign and
a number that touches it.

A text before a separator or before its own end has the tokens that it has alone
(`scan_before_divides`), and the tokens after a separator are the same wherever they stand
(`scan_moved`).
-/

set_option autoImplicit false
set_option relaxedAutoImplicit false

namespace BeamCalc

/-! ### Lists at other positions -/

/-- Only the first token can touch. -/
theorem touchesNumber_cons (position : Nat) (placed : PlacedToken) (rest rest' : List PlacedToken) :
    touchesNumber position (placed :: rest) = touchesNumber position (placed :: rest') := by
  obtain ⟨token, start⟩ := placed
  cases token <;> rfl

/-- No token of a list that is moved far enough touches a sign before it. -/
theorem touchesNumber_moved_eq_false {position distance : Nat} (h : position + 1 < distance)
    (tokens : List PlacedToken) :
    touchesNumber position (tokens.map (.moved distance)) = false := by
  match tokens with
  | [] | ⟨.name _, _⟩ :: _ | ⟨.mark _, _⟩ :: _ => rfl
  | ⟨.number _, start⟩ :: rest =>
    have hapart : distance + start ≠ position + 1 := by omega
    simpa [touchesNumber, PlacedToken.moved] using hapart

/-- A list is like itself elsewhere. -/
theorem Alike.moved (distance distance' : Nat) (tokens : List PlacedToken) :
    Alike (tokens.map (.moved distance)) (tokens.map (.moved distance')) := by
  induction tokens with
  | nil => exact .nil
  | cons placed tokens ih =>
    refine .cons (fun sign hsign hadditive ↦ ?_) ih
    match tokens with
    | [] | ⟨.name _, _⟩ :: _ | ⟨.mark _, _⟩ :: _ => rfl
    | ⟨.number _, start⟩ :: rest =>
      simp only [List.map_cons, PlacedToken.moved, touchesNumber]
      congr 1
      simp only [eq_iff_iff]
      omega

/-- Lists that are alike remain so behind the same tokens, if the last of these touches a number in
both or in neither. -/
theorem Alike.append_left {tokens rest rest' : List PlacedToken} (h : Alike rest rest')
    (hlast : ∀ sign position, tokens.getLast? = some ⟨.mark sign, position⟩ → sign.isAdditive →
      touchesNumber position rest = touchesNumber position rest') :
    Alike (tokens ++ rest) (tokens ++ rest') := by
  induction tokens with
  | nil => exact h
  | cons placed tokens ih =>
    match tokens with
    | [] =>
      refine .cons (fun sign hsign hadditive ↦ ?_) h
      refine hlast sign placed.position ?_ hadditive
      rw [← hsign]
      rfl
    | next :: others =>
      exact .cons (fun _ _ _ ↦ touchesNumber_cons _ _ _ _) (ih hlast)

/-- The same error further on in a text. -/
def ParseError.moved (distance : Nat) (error : ParseError) : ParseError :=
  { error with position := distance + error.position }

namespace Token

open Text Lexicon

variable {position : Nat} {before after gap text : List Char} {tokens : List PlacedToken}

/-! ### Texts before a divider -/

/-- Whether there are only separators in a text. -/
def IsGap (text : List Char) : Prop :=
  ∀ character ∈ text, character ∈ separators

/-- Whether a text is empty or begins with a divider. -/
def Divides (text : List Char) : Prop :=
  ∀ first others, text = first :: others → IsDivider first

theorem isDivider_of_separator {character : Char} (h : character ∈ separators) :
    IsDivider character := by
  simp only [separators, List.mem_cons, List.not_mem_nil, or_false] at h
  rcases h with rfl | rfl | rfl | rfl | rfl <;> exact ⟨by decide, by decide, by decide⟩

theorem divides_gap (hgap : IsGap gap) : Divides gap := by
  rintro first others rfl
  exact isDivider_of_separator (hgap first List.mem_cons_self)

theorem divides_append (hgap : IsGap gap) (hsome : gap ≠ []) (text : List Char) :
    Divides (gap ++ text) := by
  match gap with
  | [] => exact absurd rfl hsome
  | separator :: others =>
    intro first rest hfirst
    obtain rfl := (List.cons.inj hfirst).1
    exact isDivider_of_separator (hgap _ List.mem_cons_self)

namespace Tiles

/-- A tiling is one without what follows it. -/
theorem alone (h : Tiles after position text tokens) : Tiles [] position text tokens := by
  induction h with
  | nil => exact .nil
  | separator hseparator hrest ih => exact .separator hseparator ih
  | word hlongest hspells hrest ih =>
    refine .word ?_ hspells ih
    rw [← List.append_assoc] at hlongest
    rw [List.append_nil]
    exact hlongest.shorten (List.prefix_append _ _)

/-- A tiling is one when more follows that does not go on with a word. -/
theorem followed (h : Tiles after position text tokens) {tail : List Char} (htail : Divides tail) :
    Tiles (after ++ tail) position text tokens := by
  match tail with
  | [] =>
    rw [List.append_nil]
    exact h
  | divider :: others =>
    induction h with
    | nil => exact .nil
    | separator hseparator hrest ih => exact .separator hseparator ih
    | @word position word rest token tokens hlongest hspells hrest ih =>
      refine .word ?_ hspells ih
      rw [← List.append_assoc rest]
      exact isLongest_before_divider (htail _ _ rfl) others hlongest

/-- A tiling elsewhere. -/
theorem moved (h : Tiles after position text tokens) (distance : Nat) :
    Tiles after (distance + position) text (tokens.map (.moved distance)) := by
  induction h with
  | nil => exact .nil
  | separator hseparator hrest ih =>
    refine .separator hseparator ?_
    rw [Nat.add_assoc]
    exact ih
  | word hlongest hspells hrest ih =>
    refine .word hlongest hspells ?_
    rw [Nat.add_assoc]
    exact ih

/-- The tokens of a tiling stand within its text. -/
theorem position_lt (h : Tiles after position text tokens) {placed : PlacedToken}
    (hplaced : placed ∈ tokens) : placed.position < position + byteLength text := by
  induction h with
  | nil => cases hplaced
  | separator hseparator hrest ih =>
    have hlater := ih hplaced
    rw [byteLength]
    omega
  | @word position word rest token tokens hlongest hspells hrest ih =>
    rw [byteLength_append]
    rcases List.mem_cons.mp hplaced with rfl | hlater
    · have hpos := byteLength_pos (ne_nil_of_mem_lexeme hlongest.mem)
      dsimp only
      omega
    · have hlater := ih hlater
      omega

/-- One word. -/
theorem single {token : Token} (hlongest : IsLongest lexeme text (text ++ after))
    (hspells : Spells text token) : Tiles after position text [⟨token, position⟩] := by
  have htiles : Tiles after position (text ++ []) [⟨token, position⟩] :=
    .word hlongest hspells .nil
  rwa [List.append_nil] at htiles

/-- Two tilings one after the other. -/
theorem append {text' : List Char} {tokens' : List PlacedToken}
    (h : Tiles (text' ++ after) position text tokens)
    (h' : Tiles after (position + byteLength text) text' tokens') :
    Tiles after position (text ++ text') (tokens ++ tokens') := by
  generalize hafter : text' ++ after = follows at h
  induction h with
  | nil => exact h'
  | @separator position first rest tokens hseparator hrest ih =>
    rw [byteLength, ← Nat.add_assoc] at h'
    exact .separator hseparator (ih h')
  | @word position word rest token tokens hlongest hspells hrest ih =>
    rw [byteLength_append, ← Nat.add_assoc] at h'
    rw [List.append_assoc]
    refine .word ?_ hspells (ih h')
    rw [List.append_assoc, hafter]
    exact hlongest

end Tiles

/-- What follows a text does not matter to it if that does not go on with a word: the text fails, or
it has the same tokens before those that follow. -/
theorem scan_before_divides (position : Nat) (before : List Char) :
    (∃ error, ∀ tail, Divides tail → scan position (before ++ tail) = .error error) ∨
      ∃ tokens, (∀ placed ∈ tokens, placed.position < position + byteLength before) ∧
        ∀ tail, Divides tail → scan position (before ++ tail) =
          (scan (position + byteLength before) tail).map (tokens ++ ·) := by
  obtain ⟨tiled, left, tokens, rfl, htiles, hstuck⟩ := exists_tiles position before
  match left with
  | [] =>
    rw [List.append_nil]
    exact .inr ⟨tokens, fun _ ↦ htiles.position_lt, fun _ htail ↦
      scan_of_tiles (htiles.followed htail)⟩
  | first :: others =>
    obtain ⟨hseparator, hnone⟩ := hstuck first others rfl
    refine .inl ⟨⟨.unexpectedCharacter (String.singleton first), position + byteLength tiled⟩,
      fun tail htail ↦ ?_⟩
    have hnone' : ∀ word ∈ lexeme, ¬word <+: first :: (others ++ tail) := by
      match tail with
      | [] =>
        rw [List.append_nil]
        exact hnone
      | divider :: more => exact not_isPrefix_before_divider (htail _ _ rfl) more hnone
    rw [List.append_assoc, scan_of_tiles (htiles.followed htail), List.cons_append,
      scan_stuck hseparator hnone']
    rfl

/-! ### Scans of texts with other separators -/

/-- Separators in front are passed over. -/
theorem scan_separators (hgap : IsGap gap) (position : Nat) (text : List Char) :
    scan position (gap ++ text) = scan (position + byteLength gap) text := by
  induction gap generalizing position with
  | nil => rfl
  | cons first others ih =>
    obtain ⟨hfirst, hothers⟩ := List.forall_mem_cons.mp hgap
    rw [List.cons_append, scan_separator (isSeparator_iff.mpr hfirst), ih hothers, byteLength,
      Nat.add_assoc]

/-- A text elsewhere has the same error or the same tokens, elsewhere. -/
theorem scan_moved (distance position : Nat) (text : List Char) :
    scan (distance + position) text =
      ((scan position text).mapError (.moved distance)).map (List.map (.moved distance)) := by
  obtain ⟨tiled, left, tokens, rfl, htiles, hstuck⟩ := exists_tiles position text
  rw [scan_of_tiles htiles, scan_of_tiles (htiles.moved distance)]
  match left with
  | [] =>
    rw [scan, scan]
    simp [Except.map, Except.mapError]
  | first :: others =>
    obtain ⟨hseparator, hnone⟩ := hstuck first others rfl
    rw [scan_stuck hseparator hnone, scan_stuck hseparator hnone, Nat.add_assoc]
    rfl

/-- Whether two scans fail with the same fault, or find lists that are alike. -/
def ScansAlike (scanned scanned' : Except ParseError (List PlacedToken)) : Prop :=
  Agree (fun error error' ↦ error.fault = error'.fault) Alike scanned scanned'

theorem ScansAlike.refl (scanned : Except ParseError (List PlacedToken)) :
    ScansAlike scanned scanned := by
  cases scanned with
  | error error => exact .error rfl
  | ok tokens => exact .ok (.refl tokens)

/-- The same text at two places behind the same tokens, of which the last one touches a number in
both or in neither. -/
theorem scansAlike_append {distance distance' : Nat}
    (hlast : ∀ rest, scan 0 after = .ok rest → ∀ sign position,
      tokens.getLast? = some ⟨.mark sign, position⟩ → sign.isAdditive →
        touchesNumber position (rest.map (.moved distance)) =
          touchesNumber position (rest.map (.moved distance'))) :
    ScansAlike ((scan distance after).map (tokens ++ ·))
      ((scan distance' after).map (tokens ++ ·)) := by
  rw [← Nat.add_zero distance, ← Nat.add_zero distance', scan_moved, scan_moved]
  cases hscan : scan 0 after with
  | error error => exact .error rfl
  | ok rest =>
    exact .ok ((Alike.moved distance distance' rest).append_left (hlast rest hscan))

/-- Texts that differ in separators only: some separators in one of them are others in the other
one, or separators are added at the beginning, at the end or between two words that touch. A sign
and a number that touches it are not taken apart. -/
inductive Respaces : List Char → List Char → Prop
  | gap {before gap gap' after : List Char} (hgap : IsGap gap) (hgap' : IsGap gap')
      (hsome : gap ≠ []) (hsome' : gap' ≠ []) :
      Respaces (before ++ (gap ++ after)) (before ++ (gap' ++ after))
  | leading {gap text : List Char} (hgap : IsGap gap) : Respaces text (gap ++ text)
  | trailing {gap text : List Char} (hgap : IsGap gap) : Respaces text (text ++ gap)
  | between {before word word' after gap : List Char} {tokens : List PlacedToken}
      {token token' : Token} (hbefore : Tiles (word ++ (word' ++ after)) 0 before tokens)
      (hword : IsLongest lexeme word (word ++ (word' ++ after))) (hspells : Spells word token)
      (hword' : IsLongest lexeme word' (word' ++ after)) (hspells' : Spells word' token')
      (happart : ∀ sign value, token = .mark sign → token' = .number value → ¬sign.isAdditive)
      (hgap : IsGap gap) :
      Respaces (before ++ (word ++ (word' ++ after)))
        (before ++ (word ++ (gap ++ (word' ++ after))))

/-- Separators may be any others. -/
theorem scansAlike_gap {gap' : List Char} (hgap : IsGap gap) (hgap' : IsGap gap')
    (hsome : gap ≠ []) (hsome' : gap' ≠ []) :
    ScansAlike (scan 0 (before ++ (gap ++ after))) (scan 0 (before ++ (gap' ++ after))) := by
  have hdivides := divides_append hgap hsome after
  have hdivides' := divides_append hgap' hsome' after
  rcases scan_before_divides 0 before with ⟨error, herror⟩ | ⟨tokens, hwithin, hscan⟩
  · rw [herror _ hdivides, herror _ hdivides']
    exact .error rfl
  · rw [hscan _ hdivides, hscan _ hdivides', scan_separators hgap, scan_separators hgap']
    refine scansAlike_append fun rest _ sign position hsign _ ↦ ?_
    -- Neither gap is empty, so what follows it cannot touch a sign before it.
    have hbefore := hwithin _ (List.mem_of_getLast? hsign)
    have hpos := byteLength_pos hsome
    have hpos' := byteLength_pos hsome'
    dsimp only at hbefore
    rw [touchesNumber_moved_eq_false (by omega), touchesNumber_moved_eq_false (by omega)]

/-- Separators may stand at the beginning. -/
theorem scansAlike_leading (hgap : IsGap gap) (text : List Char) :
    ScansAlike (scan 0 text) (scan 0 (gap ++ text)) := by
  rw [scan_separators hgap, Nat.add_comm, scan_moved]
  cases scan 0 text with
  | error error => exact .error rfl
  | ok tokens =>
    have hstay : tokens.map (.moved 0) = tokens :=
      List.map_id'' (fun placed ↦ by rw [PlacedToken.moved, Nat.zero_add]) tokens
    have halike := Alike.moved 0 (byteLength gap) tokens
    rw [hstay] at halike
    exact .ok halike

/-- Separators may stand at the end. -/
theorem scansAlike_trailing (hgap : IsGap gap) (text : List Char) :
    ScansAlike (scan 0 text) (scan 0 (text ++ gap)) := by
  have htext : scan 0 text = scan 0 (text ++ []) := by rw [List.append_nil]
  rw [htext]
  rcases scan_before_divides 0 text with ⟨error, herror⟩ | ⟨tokens, -, hscan⟩
  · rw [herror _ (divides_gap hgap), herror [] nofun]
    exact .error rfl
  · have hnone := scan_separators hgap (0 + byteLength text) []
    rw [List.append_nil] at hnone
    rw [hscan _ (divides_gap hgap), hscan [] nofun, hnone, scan, scan]
    exact .ok (.refl _)

/-- Separators may stand between two words, unless these are a sign and a number. -/
theorem scansAlike_between {word word' : List Char} {token token' : Token}
    (hbefore : Tiles (word ++ (word' ++ after)) 0 before tokens)
    (hword : IsLongest lexeme word (word ++ (word' ++ after))) (hspells : Spells word token)
    (hword' : IsLongest lexeme word' (word' ++ after)) (hspells' : Spells word' token')
    (happart : ∀ sign value, token = .mark sign → token' = .number value → ¬sign.isAdditive)
    (hgap : IsGap gap) :
    ScansAlike (scan 0 (before ++ (word ++ (word' ++ after))))
      (scan 0 (before ++ (word ++ (gap ++ (word' ++ after))))) := by
  have htiles := hbefore.append (.single hword hspells)
  by_cases hsome : gap = []
  · rw [hsome, List.nil_append]
    exact .refl _
  · have htiles' := htiles.alone.followed (divides_append hgap hsome (word' ++ after))
    rw [List.nil_append] at htiles'
    have hscan := scan_of_tiles htiles
    have hscan' := scan_of_tiles htiles'
    rw [scan_separators hgap] at hscan'
    rw [← List.append_assoc before, ← List.append_assoc before, hscan, hscan']
    refine scansAlike_append fun rest hrest sign position hsign hadditive ↦ ?_
    -- The last token before the gap is the first of the two, and the other one follows the gap.
    rw [List.getLast?_append_of_ne_nil _ (List.cons_ne_nil _ _)] at hsign
    have htoken : token = .mark sign := congrArg PlacedToken.token (Option.some.inj hsign)
    rw [scan_word hword' hspells'] at hrest
    cases hmore : scan (0 + byteLength word') after with
    | error error =>
      rw [hmore] at hrest
      cases hrest
    | ok more =>
      rw [hmore] at hrest
      cases hrest
      cases token' with
      | number value => exact absurd hadditive (happart sign value htoken rfl)
      | name | mark => rfl

/-- Texts that differ in separators only have the same fault, or their tokens are alike. -/
theorem scansAlike_ofText {text text' : String} (h : Respaces text.toList text'.toList) :
    ScansAlike (ofText text) (ofText text') := by
  rw [ofText, ofText]
  generalize text.toList = characters at h ⊢
  generalize text'.toList = characters' at h ⊢
  cases h with
  | gap hgap hgap' hsome hsome' => exact scansAlike_gap hgap hgap' hsome hsome'
  | leading hgap => exact scansAlike_leading hgap _
  | trailing hgap => exact scansAlike_trailing hgap _
  | between hbefore hword hspells hword' hspells' happart hgap =>
    exact scansAlike_between hbefore hword hspells hword' hspells' happart hgap

end Token

end BeamCalc
