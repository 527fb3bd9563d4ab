import BeamCalc.Proofs.Grammar.Phrase
import BeamCalc.Proofs.Token.Concatenation

/-!
# Phrases elsewhere in a text

A phrase may stand anywhere in a text: only the positions of its tokens change (`moved`), not what
it emits, how deep it is and whether its calls fit. In particular a sign still touches its number.

A phrase in brackets is an operand, and so is a call of bracketed arguments; `exists_joined` says
that two operands with an operator between them are a sum, whatever the operator is.
-/

set_option autoImplicit false
set_option relaxedAutoImplicit false

namespace BeamCalc

/-- An operator joins terms, joins factors or raises. -/
theorem Mark.kind_of_isOperator {sign : Mark} (h : sign.isOperator) :
    sign.isAdditive ∨ sign.isMultiplicative ∨ sign = .power := by
  cases sign with
  | plus | minus => exact Or.inl rfl
  | times | divide => exact Or.inr (Or.inl rfl)
  | power => exact Or.inr (Or.inr rfl)
  | openParen | closeParen | comma => cases h

namespace Grammar.Phrase

variable {rule : Rule} {vocabulary : Vocabulary}

/-- The same phrase further on in a text. -/
def moved (distance : Nat) {rule : Rule} : Phrase rule → Phrase rule
  | sum first others => .sum (first.moved distance) (others.moved distance)
  | noTerm => .noTerm
  | term sign additive position next others =>
    .term sign additive (distance + position) (next.moved distance) (others.moved distance)
  | product first others => .product (first.moved distance) (others.moved distance)
  | noFactor => .noFactor
  | factor sign multiplicative position next others =>
    .factor sign multiplicative (distance + position) (next.moved distance) (others.moved distance)
  | unraised base => .unraised (base.moved distance)
  | raised base position exponent =>
    .raised (base.moved distance) (distance + position) (exponent.moved distance)
  | unsigned inner => .unsigned (inner.moved distance)
  | negated position inner => .negated (distance + position) (inner.moved distance)
  | bare inner => .bare (inner.moved distance)
  | negative position value => .negative (distance + position) value
  | number position value => .number (distance + position) value
  | positive position value => .positive (distance + position) value
  | named position name => .named (distance + position) name
  | call position name opening arguments closing =>
    .call (distance + position) name (distance + opening) (arguments.moved distance)
      (distance + closing)
  | group opening inner closing =>
    .group (distance + opening) (inner.moved distance) (distance + closing)
  | last argument => .last (argument.moved distance)
  | further argument comma others =>
    .further (argument.moved distance) (distance + comma) (others.moved distance)

@[simp] theorem tokens_moved (distance : Nat) (phrase : Phrase rule) :
    (phrase.moved distance).tokens = phrase.tokens.map (.moved distance) := by
  induction phrase with
  | negative | positive => simp [moved, tokens, PlacedToken.moved, Nat.add_assoc]
  | _ => simp_all [moved, tokens, PlacedToken.moved]

@[simp] theorem emission_moved (distance : Nat) (phrase : Phrase rule) :
    (phrase.moved distance).emission = phrase.emission := by
  induction phrase <;> simp_all [moved, emission]

@[simp] theorem depth_moved (distance : Nat) (phrase : Phrase rule) :
    (phrase.moved distance).depth = phrase.depth := by
  induction phrase <;> simp_all [moved, depth]

@[simp] theorem count_moved (distance : Nat) (phrase : Phrase .arguments) :
    (phrase.moved distance).count = phrase.count := by
  match phrase with
  | last argument => rw [moved, count, count]
  | further argument comma others => rw [moved, count, count, count_moved distance others]

@[simp] theorem callsFit_moved (distance : Nat) (phrase : Phrase rule) :
    (phrase.moved distance).CallsFit vocabulary ↔ phrase.CallsFit vocabulary := by
  induction phrase <;> simp_all [moved, CallsFit]

/-! ### Operands as sums -/

/-- A phrase in brackets, of which the first one stands at a position; between them there are so
many bytes. -/
def bracketed (phrase : Phrase .sum) (position size : Nat) : Phrase .primary :=
  .group position (phrase.moved (position + 1)) (position + 1 + size)

@[simp] theorem tokens_bracketed (phrase : Phrase .sum) (position size : Nat) :
    (phrase.bracketed position size).tokens =
      ⟨.mark .openParen, position⟩ :: (phrase.tokens.map (.moved (position + 1)) ++
        [⟨.mark .closeParen, position + 1 + size⟩]) := by
  simp [bracketed, tokens]

@[simp] theorem emission_bracketed (phrase : Phrase .sum) (position size : Nat) :
    (phrase.bracketed position size).emission = phrase.emission := by
  simp [bracketed, emission]

@[simp] theorem depth_bracketed (phrase : Phrase .sum) (position size : Nat) :
    (phrase.bracketed position size).depth = phrase.depth + 1 := by
  simp [bracketed, depth]

@[simp] theorem callsFit_bracketed (phrase : Phrase .sum) (position size : Nat) :
    (phrase.bracketed position size).CallsFit vocabulary ↔ phrase.CallsFit vocabulary := by
  simp [bracketed, CallsFit]

/-- An operand as a whole expression. -/
def ofOperand (operand : Phrase .operand) : Phrase .sum :=
  .sum (.product (.unraised operand) .noFactor) .noTerm

@[simp] theorem tokens_ofOperand (operand : Phrase .operand) :
    operand.ofOperand.tokens = operand.tokens := by
  simp [ofOperand, tokens]

@[simp] theorem emission_ofOperand (operand : Phrase .operand) :
    operand.ofOperand.emission = operand.emission := by
  simp [ofOperand, emission]

@[simp] theorem depth_ofOperand (operand : Phrase .operand) :
    operand.ofOperand.depth = operand.depth := by
  simp [ofOperand, depth]

@[simp] theorem callsFit_ofOperand (operand : Phrase .operand) :
    operand.ofOperand.CallsFit vocabulary ↔ operand.CallsFit vocabulary := by
  simp [ofOperand, CallsFit]

/-- Two operands with an operator between them are a sum. The right side of `^` opens a level. -/
theorem exists_joined (left right : Phrase .operand) {sign : Mark} (hsign : sign.isOperator)
    (position : Nat) :
    ∃ phrase : Phrase .sum,
      phrase.tokens = left.tokens ++ ⟨.mark sign, position⟩ :: right.tokens ∧
      phrase.emission = left.emission ++ (right.emission ++ [.operator sign.symbol]) ∧
      phrase.depth ≤ max left.depth (right.depth + if sign = .power then 1 else 0) ∧
      ∀ vocabulary, left.CallsFit vocabulary → right.CallsFit vocabulary →
        phrase.CallsFit vocabulary := by
  rcases Mark.kind_of_isOperator hsign with hadditive | hmultiplicative | rfl
  · refine ⟨.sum (.product (.unraised left) .noFactor)
      (.term sign hadditive position (.product (.unraised right) .noFactor) .noTerm),
      by simp [tokens], by simp [emission], ?_,
      fun vocabulary hleft hright ↦ by simp [CallsFit, hleft, hright]⟩
    simp only [depth]
    omega
  · refine ⟨.sum (.product (.unraised left)
      (.factor sign hmultiplicative position (.unraised right) .noFactor)) .noTerm,
      by simp [tokens], by simp [emission], ?_,
      fun vocabulary hleft hright ↦ by simp [CallsFit, hleft, hright]⟩
    simp only [depth]
    omega
  · refine ⟨.sum (.product (.raised left position (.unraised right)) .noFactor) .noTerm,
      by simp [tokens], by simp [emission], ?_,
      fun vocabulary hleft hright ↦ by simp [CallsFit, hleft, hright]⟩
    simp [depth]

end Grammar.Phrase

end BeamCalc
