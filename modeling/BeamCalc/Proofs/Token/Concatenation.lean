import BeamCalc.Proofs.Token.Scanning

/-!
# Tokens of texts that are put together

The tokens of a text elsewhere are the same at other positions (`Scans.moved`), and the tokens of
two texts one after the other are those of the first and those of the second, if the second begins
with a divider (`Scans.append`). A divider is a character that continues neither a numeral nor a
name, nor an exponent that a numeral might have. Brackets and commas are dividers.
-/

set_option autoImplicit false
set_option relaxedAutoImplicit false

namespace BeamCalc

theorem Text.byteLength_append (first second : List Char) :
    byteLength (first ++ second) = byteLength first + byteLength second := by
  induction first with
  | nil => rw [List.nil_append, byteLength, Nat.zero_add]
  | cons character others ih => rw [List.cons_append, byteLength, byteLength, ih, Nat.add_assoc]

/-- The same token further on in a text. -/
def PlacedToken.moved (distance : Nat) (placed : PlacedToken) : PlacedToken :=
  { placed with position := distance + placed.position }

/-- The tokens of a text elsewhere are the same tokens. -/
theorem Token.Scans.moved {position : Nat} {text : List Char} {tokens : List PlacedToken}
    (h : Scans position text tokens) (distance : Nat) :
    Scans (distance + position) text (tokens.map (.moved distance)) := by
  induction h with
  | nil => exact .nil
  | separator hseparator hrest ih =>
    refine .separator hseparator ?_
    rw [Nat.add_assoc]
    exact ih
  | lexeme hseparator hlexeme hrest ih =>
    refine .lexeme hseparator hlexeme ?_
    rw [Nat.add_assoc]
    exact ih

/-! ### Dividers -/

/-- A character that ends the lexeme before it. A sign is none, since an exponent may have one. -/
structure IsDivider (character : Char) : Prop where
  not_name : isNameChar character = false
  ne_plus : character ≠ '+'
  ne_minus : character ≠ '-'

namespace IsDivider

variable {divider : Char} (h : IsDivider divider) (tail : List Char)

include h

theorem not_digit : divider.isDigit = false := by
  have hname := h.not_name
  simp only [isNameChar, Char.isAlphanum, Bool.or_eq_false_iff] at hname
  exact hname.1.1.1.2

theorem not_exponentMark : Number.isExponentMark divider = false := by
  have hname := h.not_name
  refine Bool.eq_false_iff.mpr fun hmark ↦ ?_
  have hletter : divider = 'e' ∨ divider = 'E' ∨ divider = 'd' ∨ divider = 'D' := by
    simpa [Number.isExponentMark, or_assoc] using hmark
  rcases hletter with rfl | rfl | rfl | rfl <;> revert hname <;> decide

theorem ne_point : divider ≠ '.' := by
  have hname := h.not_name
  simp only [isNameChar, Bool.or_eq_false_iff, beq_eq_false_iff_ne] at hname
  exact hname.1.2

omit h in
/-- A beginning with a property ends before a character that does not have it. -/
theorem takeWhile_append {property : Char → Bool} (hstop : property divider = false)
    (text : List Char) :
    (text ++ divider :: tail).takeWhile property = text.takeWhile property ∧
      (text ++ divider :: tail).dropWhile property =
        text.dropWhile property ++ divider :: tail := by
  induction text with
  | nil => simp [hstop]
  | cons first others ih =>
    by_cases hfirst : property first = true
    · simp [hfirst, ih]
    · simp [hfirst]

theorem takeDigits_append (text : List Char) :
    Number.takeDigits (text ++ divider :: tail) =
      ((Number.takeDigits text).1, (Number.takeDigits text).2 ++ divider :: tail) := by
  obtain ⟨htaken, hleft⟩ := takeWhile_append tail h.not_digit text
  rw [Number.takeDigits, htaken, hleft]
  rfl

theorem signSpan_append (text : List Char) :
    Number.signSpan (text ++ divider :: tail) =
      ((Number.signSpan text).1, (Number.signSpan text).2 ++ divider :: tail) := by
  match text with
  | [] =>
    have hminus := h.ne_minus
    have hplus := h.ne_plus
    simp [Number.signSpan, hminus, hplus]
  | first :: others =>
    unfold Number.signSpan
    split <;> split <;> simp_all

theorem pointSpan_append (led : Bool) (text : List Char) :
    Number.pointSpan led (text ++ divider :: tail) =
      ((Number.pointSpan led text).1, (Number.pointSpan led text).2 ++ divider :: tail) := by
  by_cases hpoint : ∃ others, text = '.' :: others
  · obtain ⟨others, rfl⟩ := hpoint
    rw [List.cons_append, Number.pointSpan, Number.pointSpan, h.takeDigits_append]
    dsimp only
    split <;> rfl
  · have hnone : ∀ rest, text ≠ '.' :: rest := fun rest htext ↦ hpoint ⟨rest, htext⟩
    have hwhole : ∀ rest, text ++ divider :: tail ≠ '.' :: rest := by
      intro rest hrest
      match text with
      | [] => exact h.ne_point (List.cons.inj hrest).1
      | first :: others =>
        exact hnone others (by rw [(List.cons.inj hrest).1])
    rw [Number.pointSpan_eq_nil led hnone, Number.pointSpan_eq_nil led hwhole]

theorem exponentSpan_append (text : List Char) :
    Number.exponentSpan (text ++ divider :: tail) =
      ((Number.exponentSpan text).1, (Number.exponentSpan text).2 ++ divider :: tail) := by
  match text with
  | [] =>
    have hmark : Number.isExponentMark divider = false := h.not_exponentMark
    simp [Number.exponentSpan, hmark]
  | first :: others =>
    rw [List.cons_append, Number.exponentSpan, Number.exponentSpan, h.signSpan_append]
    dsimp only
    rw [h.takeDigits_append]
    dsimp only
    split <;> rfl

/-- A divider does not belong to the numeral before it. -/
theorem numeralSpan?_append (text : List Char) :
    Number.numeralSpan? (text ++ divider :: tail) =
      (Number.numeralSpan? text).map fun (numeral, rest) ↦ (numeral, rest ++ divider :: tail) := by
  unfold Number.numeralSpan?
  rw [h.takeDigits_append]
  dsimp only
  rw [h.pointSpan_append]
  dsimp only
  rw [h.exponentSpan_append]
  split <;> rfl

/-- A divider does not belong to the lexeme before it. -/
theorem first?_append (first : Char) (others : List Char) :
    Lexeme.first? (first :: (others ++ divider :: tail)) =
      (Lexeme.first? (first :: others)).map fun lexeme ↦
        { lexeme with rest := lexeme.rest ++ divider :: tail } := by
  obtain ⟨htaken, hleft⟩ := takeWhile_append tail h.not_name others
  rw [Lexeme.first?, Lexeme.first?, ← List.cons_append, h.numeralSpan?_append]
  cases Number.numeralSpan? (first :: others) with
  | some span => rfl
  | none =>
    dsimp only [Option.map_none]
    rw [htaken, hleft]
    split
    · rfl
    · rw [Option.map_map]
      rfl

end IsDivider

namespace Token

/-- The tokens of two texts of which the second begins with a divider. -/
theorem Scans.append {position : Nat} {text : List Char} {tokens tokens' : List PlacedToken}
    {divider : Char} {tail : List Char} (h : Scans position text tokens)
    (hdivider : IsDivider divider)
    (htail : Scans (position + Text.byteLength text) (divider :: tail) tokens') :
    Scans position (text ++ divider :: tail) (tokens ++ tokens') := by
  induction h with
  | nil => exact htail
  | separator hseparator hrest ih =>
    rw [Text.byteLength, ← Nat.add_assoc] at htail
    exact .separator hseparator (ih htail)
  | @lexeme position first others taken rest token tokens hseparator hlexeme hrest ih =>
    have hwhole := (Lexeme.append_of_first? hlexeme).1
    rw [← hwhole, Text.byteLength_append, ← Nat.add_assoc] at htail
    have hlexeme' : Lexeme.first? (first :: (others ++ divider :: tail)) =
        some ⟨taken, rest ++ divider :: tail, some token⟩ := by
      rw [hdivider.first?_append, hlexeme]
      rfl
    exact .lexeme hseparator hlexeme' (ih htail)

theorem isDivider_openParen : IsDivider Mark.openParen.symbol :=
  ⟨by decide, by decide, by decide⟩

theorem isDivider_closeParen : IsDivider Mark.closeParen.symbol :=
  ⟨by decide, by decide, by decide⟩

theorem isDivider_comma : IsDivider Mark.comma.symbol :=
  ⟨by decide, by decide, by decide⟩

/-- A text that is scanned from its beginning on, elsewhere and with a mark behind it. -/
theorem Scans.followed {text rest : List Char} {tokens tokens' : List PlacedToken}
    (h : Scans 0 text tokens) (position : Nat) {sign : Mark} (hsign : IsDivider sign.symbol)
    (hrest : Scans (position + Text.byteLength text + 1) rest tokens') :
    Scans position (text ++ sign.symbol :: rest)
      (tokens.map (.moved position) ++
        ⟨.mark sign, position + Text.byteLength text⟩ :: tokens') :=
  (h.moved position).append hsign (hrest.mark sign)

/-- A text in brackets. -/
theorem Scans.bracketed {text rest : List Char} {tokens tokens' : List PlacedToken}
    (h : Scans 0 text tokens) (position : Nat)
    (hrest : Scans (position + 1 + Text.byteLength text + 1) rest tokens') :
    Scans position ('(' :: (text ++ ')' :: rest))
      (⟨.mark .openParen, position⟩ :: (tokens.map (.moved (position + 1)) ++
        ⟨.mark .closeParen, position + 1 + Text.byteLength text⟩ :: tokens')) :=
  (h.followed (position + 1) isDivider_closeParen hrest).mark .openParen

end Token

end BeamCalc
