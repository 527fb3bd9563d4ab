import BeamCalc.Token.Scan
import Mathlib.Data.List.TakeWhile

/-!
# The tokens of a text

`Scans` says which tokens a text has, wherever it stands: separators are passed over and lexemes
taken. It is what `Token.scan` finds (`scan_eq_ok_iff`). Marks are lexemes, and so is a letter with
name characters after it; `isBareName_iff` says that this is what names are.
-/

set_option autoImplicit false
set_option relaxedAutoImplicit false

namespace BeamCalc

namespace Number

/-- Without a point there is nothing to take. -/
theorem pointSpan_eq_nil (led : Bool) {text : List Char} (hpoint : ∀ rest, text ≠ '.' :: rest) :
    pointSpan led text = ([], text) := by
  unfold pointSpan
  split
  · rename_i rest
    exact absurd rfl (hpoint rest)
  · rfl

/-- Where neither a digit nor a point stands, no numeral begins. -/
theorem numeralSpan?_eq_none {first : Char} {others : List Char} (hdigit : first.isDigit = false)
    (hpoint : first ≠ '.') : numeralSpan? (first :: others) = none := by
  have hnone : ∀ rest, first :: others ≠ '.' :: rest := by
    intro rest hrest
    exact hpoint (List.cons.inj hrest).1
  have hdigits : takeDigits (first :: others) = ([], first :: others) := by
    simp [takeDigits, hdigit]
  unfold numeralSpan?
  rw [hdigits]
  dsimp only
  rw [pointSpan_eq_nil _ hnone]
  rfl

end Number

namespace Token

/-- The tokens of a text that starts at a position. -/
inductive Scans : Nat → List Char → List PlacedToken → Prop where
  | nil {position : Nat} : Scans position [] []
  | separator {position : Nat} {first : Char} {rest : List Char} {tokens : List PlacedToken}
      (hseparator : isSeparator first = true)
      (hrest : Scans (position + first.utf8Size) rest tokens) :
    Scans position (first :: rest) tokens
  | lexeme {position : Nat} {first : Char} {others taken rest : List Char} {token : Token}
      {tokens : List PlacedToken} (hseparator : isSeparator first = false)
      (hlexeme : Lexeme.first? (first :: others) = some ⟨taken, rest, some token⟩)
      (hrest : Scans (position + Text.byteLength taken) rest tokens) :
    Scans position (first :: others) (⟨token, position⟩ :: tokens)

/-! ### Scanning -/

theorem scan_separator {position : Nat} {first : Char} {rest : List Char}
    (hseparator : isSeparator first = true) :
    scan position (first :: rest) = scan (position + first.utf8Size) rest := by
  rw [scan, if_pos hseparator]

theorem scan_lexeme {position : Nat} {first : Char} {others taken rest : List Char} {token : Token}
    (hseparator : isSeparator first = false)
    (hlexeme : Lexeme.first? (first :: others) = some ⟨taken, rest, some token⟩) :
    scan position (first :: others) =
      (scan (position + Text.byteLength taken) rest).map (⟨token, position⟩ :: ·) := by
  rw [scan, if_neg (by simp [hseparator])]
  split
  · rename_i hnone
    rw [hlexeme] at hnone
    cases hnone
  · rename_i hnone
    rw [hlexeme] at hnone
    cases hnone
  · rename_i hfound
    rw [hlexeme] at hfound
    cases hfound
    rfl

/-- Where a lexeme stands that writes no token, or none, the scan fails. -/
theorem exists_lexeme_of_scan {position : Nat} {first : Char} {others : List Char}
    {tokens : List PlacedToken} (hseparator : isSeparator first = false)
    (hscan : scan position (first :: others) = .ok tokens) :
    ∃ taken rest token, Lexeme.first? (first :: others) = some ⟨taken, rest, some token⟩ := by
  rw [scan, if_neg (by simp [hseparator])] at hscan
  split at hscan
  · cases hscan
  · cases hscan
  · rename_i taken rest token hfound
    exact ⟨taken, rest, token, hfound⟩

/-- What a scan finds are the tokens of the text. -/
theorem scans_of_scan {position : Nat} {text : List Char} {tokens : List PlacedToken}
    (hscan : scan position text = .ok tokens) : Scans position text tokens := by
  match text with
  | [] =>
    rw [scan] at hscan
    cases hscan
    exact .nil
  | first :: others =>
    by_cases hseparator : isSeparator first = true
    · rw [scan_separator hseparator] at hscan
      exact .separator hseparator (scans_of_scan hscan)
    · have hno : isSeparator first = false := by simpa using hseparator
      obtain ⟨taken, rest, token, hlexeme⟩ := exists_lexeme_of_scan hno hscan
      have hshorter := Lexeme.length_rest_lt_of_first? hlexeme
      rw [scan_lexeme hno hlexeme] at hscan
      cases hrest : scan (position + Text.byteLength taken) rest with
      | error error =>
        rw [hrest] at hscan
        cases hscan
      | ok others =>
        rw [hrest] at hscan
        cases hscan
        exact .lexeme hno hlexeme (scans_of_scan hrest)
termination_by text.length
decreasing_by
  · exact Nat.lt_succ_self _
  · exact hshorter

/-- A scan finds exactly the tokens of the text. -/
theorem scan_eq_ok_iff {position : Nat} {text : List Char} {tokens : List PlacedToken} :
    scan position text = .ok tokens ↔ Scans position text tokens := by
  constructor
  · exact scans_of_scan
  · intro hscans
    induction hscans with
    | nil => rw [scan]
    | separator hseparator hrest ih => rw [scan_separator hseparator, ih]
    | lexeme hseparator hlexeme hrest ih =>
      rw [scan_lexeme hseparator hlexeme, ih]
      rfl

/-- The tokens of a text are those that it has from its beginning on. -/
theorem ofText_eq_ok_iff {text : String} {tokens : List PlacedToken} :
    ofText text = .ok tokens ↔ Scans 0 text.toList tokens :=
  scan_eq_ok_iff

/-- No token of a text stands before it. -/
theorem Scans.position_le {position : Nat} {text : List Char} {tokens : List PlacedToken}
    (h : Scans position text tokens) {placed : PlacedToken} (hplaced : placed ∈ tokens) :
    position ≤ placed.position := by
  induction h with
  | nil => cases hplaced
  | separator hseparator hrest ih => exact Nat.le_trans (Nat.le_add_right _ _) (ih hplaced)
  | lexeme hseparator hlexeme hrest ih =>
    rcases List.mem_cons.mp hplaced with rfl | hlater
    · exact Nat.le_refl _
    · exact Nat.le_trans (Nat.le_add_right _ _) (ih hlater)

/-- Each token of a text stands before the next one. -/
theorem Scans.pairwise_position {position : Nat} {text : List Char} {tokens : List PlacedToken}
    (h : Scans position text tokens) :
    tokens.Pairwise fun placed later ↦ placed.position < later.position := by
  induction h with
  | nil => exact .nil
  | separator hseparator hrest ih => exact ih
  | @lexeme position first others taken rest token tokens hseparator hlexeme hrest ih =>
    have hpos : 0 < Text.byteLength taken :=
      Text.byteLength_pos (Lexeme.append_of_first? hlexeme).2
    refine .cons (fun later hlater ↦ ?_) ih
    have hle := hrest.position_le hlater
    change position < later.position
    omega

/-! ### Marks and names -/

/-- A mark is a lexeme, whatever follows it. -/
theorem first?_mark (sign : Mark) (rest : List Char) :
    Lexeme.first? (sign.symbol :: rest) = some ⟨[sign.symbol], rest, some (.mark sign)⟩ := by
  cases sign <;> rfl

/-- A mark and what follows it. -/
theorem Scans.mark {position : Nat} {rest : List Char} {tokens : List PlacedToken} (sign : Mark)
    (hrest : Scans (position + 1) rest tokens) :
    Scans position (sign.symbol :: rest) (⟨.mark sign, position⟩ :: tokens) := by
  have hseparator : isSeparator sign.symbol = false := by cases sign <;> rfl
  have hsize : Text.byteLength [sign.symbol] = 1 := by cases sign <;> rfl
  exact .lexeme hseparator (first?_mark sign rest) (hsize ▸ hrest)

/-- A letter is no digit. -/
theorem not_digit_of_isAlpha {letter : Char} (hletter : letter.isAlpha) :
    letter.isDigit = false := by
  refine Bool.eq_false_iff.mpr fun hdigit ↦ ?_
  simp only [Char.isDigit, Bool.and_eq_true, decide_eq_true_eq] at hdigit
  rcases Bool.or_eq_true_iff.mp hletter with hupper | hlower
  · obtain ⟨hfirst, -⟩ : letter.val ≥ 'A'.val ∧ letter.val ≤ 'Z'.val := of_decide_eq_true hupper
    exact absurd (UInt32.le_trans hfirst hdigit.2) (by decide)
  · change (letter.val ≥ 'a'.val && letter.val ≤ 'z'.val) = true at hlower
    simp only [Bool.and_eq_true, decide_eq_true_eq] at hlower
    exact absurd (UInt32.le_trans hlower.1 hdigit.2) (by decide)

/-- A letter is none of the other characters. -/
theorem ne_of_isAlpha {letter other : Char} (hletter : letter.isAlpha)
    (hother : other.isAlpha = false) : letter ≠ other := by
  rintro rfl
  rw [hletter] at hother
  cases hother

theorem not_separator_of_isAlpha {letter : Char} (hletter : letter.isAlpha) :
    isSeparator letter = false := by
  simp only [isSeparator, Bool.or_eq_false_iff, beq_eq_false_iff_ne]
  refine ⟨⟨⟨⟨?_, ?_⟩, ?_⟩, ?_⟩, ?_⟩ <;> exact ne_of_isAlpha hletter (by decide)

/-- A letter and the name characters after it are a lexeme. -/
theorem first?_name {letter : Char} {others : List Char} (hletter : letter.isAlpha) :
    Lexeme.first? (letter :: others) = some ⟨letter :: others.takeWhile isNameChar,
      others.dropWhile isNameChar,
      some (.name (String.ofList (letter :: others.takeWhile isNameChar)))⟩ := by
  rw [Lexeme.first?, Number.numeralSpan?_eq_none (not_digit_of_isAlpha hletter)
    (ne_of_isAlpha hletter (by decide))]
  dsimp only
  rw [if_pos hletter]

/-- The name of a lexeme is all that is taken, a letter and name characters. -/
theorem name_of_first? {text taken rest : List Char} {name : String}
    (h : Lexeme.first? text = some ⟨taken, rest, some (.name name)⟩) :
    ∃ letter others, name.toList = letter :: others ∧ letter.isAlpha ∧ others.all isNameChar := by
  unfold Lexeme.first? at h
  split at h
  · cases h
  · split at h
    · have htoken := congrArg Lexeme.token (Option.some.inj h)
      rw [Option.map_eq_some_iff] at htoken
      obtain ⟨value, -, hvalue⟩ := htoken
      cases hvalue
    · rename_i first others _ hnumeral
      split at h
      · rename_i hletter
        have htoken := Option.some.inj (congrArg Lexeme.token (Option.some.inj h))
        rw [← Token.name.inj htoken, String.toList_ofList]
        exact ⟨first, _, rfl, hletter, List.all_takeWhile⟩
      · obtain ⟨sign, -, hsign⟩ := Option.map_eq_some_iff.mp h
        cases congrArg Lexeme.token hsign

/-- A text that is a name and nothing else. -/
def IsBareName (text : String) : Prop :=
  ofText text = .ok [⟨.name text, 0⟩]

/-- A name is a letter with name characters after it. -/
theorem isBareName_iff {text : String} :
    IsBareName text ↔ ∃ letter others, text.toList = letter :: others ∧ letter.isAlpha ∧
      others.all isNameChar := by
  rw [IsBareName, ofText_eq_ok_iff]
  constructor
  · intro hscans
    generalize htext : text.toList = characters at hscans
    cases hscans with
    | @separator _ first rest _ hseparator hrest =>
      have hle := hrest.position_le List.mem_cons_self
      have hpos := first.utf8Size_pos
      simp at hle
      omega
    | lexeme hseparator hlexeme hrest =>
      rw [← htext]
      exact name_of_first? hlexeme
  · rintro ⟨letter, others, htext, hletter, hothers⟩
    have hall := List.all_eq_true.mp hothers
    have htaken : others.takeWhile isNameChar = others := List.takeWhile_eq_self_iff.mpr hall
    have hleft : others.dropWhile isNameChar = [] := List.dropWhile_eq_nil_iff.mpr hall
    have hlexeme := @first?_name letter others hletter
    rw [htaken, hleft, ← htext, String.ofList_toList] at hlexeme
    rw [htext]
    exact .lexeme (not_separator_of_isAlpha hletter) (htext ▸ hlexeme) .nil

end Token

end BeamCalc
