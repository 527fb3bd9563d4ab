import BeamCalc.Proofs.Evaluation.Height
import BeamCalc.Proofs.Grammar.Activation
import BeamCalc.Proofs.Grammar.Emission

/-!
# What a rule leaves behind

Five rules read an expression, each of its own precedence (`Precedence`). From whatever assembly
they start, they share its levels and its instructions with the rules that call them, so each has to
leave both as it found them. `Precedence.confined` is a rule that is watched: it has a result only
if it is entered and left at its depth, and the rules that it calls within a bracket, a call or an
exponent only if they are entered and left one level deeper, which must be within the limit. All
rules have the results that they have without being watched (`confined_agrees`), so no level is left
that was not opened.

A rule that succeeds has read a phrase of its precedence (`exists_isRead`), and it reads this phrase
wherever its calls fit and its levels can be opened (`read_tokens`). So it takes tokens up to one
with which no phrase of its precedence goes on, and appends one expression in postfix order that
depends on these tokens and the vocabulary only. `read_leaves_one` puts all this together.
-/

set_option autoImplicit false
set_option relaxedAutoImplicit false

namespace BeamCalc.Grammar

variable {assembly extended : Assembly} {tokens : List PlacedToken} {depth : Nat}

/-- The precedences of the rules that read an expression, the loosest first. -/
inductive Precedence where
  | sum
  | product
  | power
  | operand
  | primary
  deriving Repr, DecidableEq

/-- What is read without the bound is read with it. -/
theorem Reading.eq_ok_of_plain {bound : Nat} {reading : Reading bound} {rest : Rest bound}
    (h : reading.plain = .ok (extended, rest.val)) : reading = .ok (extended, rest) := by
  cases reading with
  | error error => cases h
  | ok read =>
    obtain ⟨hextended, hrest⟩ := Prod.mk.inj (Except.ok.inj h)
    exact congrArg Except.ok (Prod.ext hextended (Subtype.ext hrest))

namespace Precedence

/-- The rule of a precedence. -/
def read : Precedence → (assembly : Assembly) → (tokens : List PlacedToken) → Reading tokens.length
  | sum => Grammar.sum
  | product => Grammar.product
  | power => Grammar.power
  | operand => Grammar.operand
  | primary => Grammar.primary

/-- The phrases of a precedence. A primary may be a number with its minus. -/
def rule : Precedence → Rule
  | sum => .sum
  | product => .product
  | power => .power
  | operand => .operand
  | primary => .negatable

/-! ### Rules and phrases -/

/-- What a rule reads is a phrase of its precedence. -/
theorem exists_isRead (level : Precedence) {rest : Rest tokens.length}
    (h : level.read assembly tokens = .ok (extended, rest)) :
    ∃ phrase : Phrase level.rule, phrase.IsRead assembly tokens extended rest.val := by
  have hplain : (level.read assembly tokens).plain = .ok (extended, rest.val) := by
    rw [h]
    rfl
  cases level with
  | sum => exact isRead_of_readSum hplain
  | product => exact isRead_of_readProduct hplain
  | power => exact isRead_of_readPower hplain
  | operand => exact isRead_of_readOperand hplain
  | primary => exact isRead_of_readPrimary hplain

/-- A phrase that ends where it ends is read by the rule of its precedence. -/
theorem plain_read (level : Precedence) (phrase : Phrase level.rule) (assembly : Assembly)
    {rest : List PlacedToken} (hends : phrase.EndsBefore rest) :
    (level.read assembly (phrase.tokens ++ rest)).plain =
      (phrase.assemble assembly).map fun assembly ↦ (assembly, rest) := by
  cases level with
  | sum => exact readSum_tokens phrase assembly hends
  | product => exact readProduct_tokens phrase assembly hends
  | power => exact readPower_tokens phrase assembly hends
  | operand => exact readOperand_tokens phrase assembly hends
  | primary => exact readPrimary_negatable phrase assembly hends

/-- A phrase is read wherever its calls fit and its levels can be opened. -/
theorem read_tokens (level : Precedence) {phrase : Phrase level.rule} {rest : Rest tokens.length}
    (htokens : phrase.tokens ++ rest.val = tokens) (hends : phrase.EndsBefore rest.val)
    (hfits : phrase.CallsFit assembly.vocabulary)
    (hdepth : assembly.depth + phrase.depth ≤ nestingLimit) :
    level.read assembly tokens = .ok (assembly.emitAll phrase.emission, rest) := by
  have hassembles : phrase.assemble assembly = .ok (assembly.emitAll phrase.emission) :=
    (phrase.emits_assemble (Nat.le_of_add_right_le hdepth)).mpr ⟨hfits, hdepth, rfl⟩
  have hplain := level.plain_read phrase assembly hends
  rw [htokens, hassembles] at hplain
  exact Reading.eq_ok_of_plain hplain

theorem depth_of_read (level : Precedence) {rest : Rest tokens.length}
    (hdepth : assembly.depth ≤ nestingLimit)
    (h : level.read assembly tokens = .ok (extended, rest)) : extended.depth = assembly.depth := by
  obtain ⟨phrase, hphrase⟩ := level.exists_isRead h
  obtain ⟨-, -, rfl⟩ := (phrase.emits_assemble hdepth).mp hphrase.assembles
  rfl

theorem tokens_ne_nil (level : Precedence) (phrase : Phrase level.rule) : phrase.tokens ≠ [] :=
  phrase.tokens_ne_nil (by cases level <;> decide) (by cases level <;> decide)

/-- A phrase of a precedence emits one expression. -/
theorem postfix_emission (level : Precedence) {vocabulary : Vocabulary}
    (phrase : Phrase level.rule) (hfits : phrase.CallsFit vocabulary) :
    Postfix vocabulary phrase.emission := by
  have hemits := phrase.emitsPostfix hfits
  cases level <;> exact hemits

end Precedence

/-! ### Watched rules -/

/-- A reader that has a result only if it is entered and, where it succeeds, left with exactly
`depth` levels open. -/
def Reader.confined (depth : Nat) (reader : Reader) : Reader := fun assembly tokens ↦
  if assembly.depth = depth then do
    let (extended, rest) ← reader assembly tokens
    if extended.depth = depth then return (extended, rest) else ExceptT.mk none
  else ExceptT.mk none

/-- The reader in place of a rule that is not entered. -/
def Reader.none : Reader := fun _ _ ↦ ExceptT.mk Option.none

mutual

/-- A power at a depth. -/
def powerAt (depth : Nat) : Reader :=
  .confined depth (powerBody (sumInside depth) (powerInside depth))
termination_by 2 * (nestingLimit - depth) + 1

/-- A sum one level deeper, if the limit admits it. -/
def sumInside (depth : Nat) : Reader :=
  if depth < nestingLimit then .confined (depth + 1) (sumBody (powerAt (depth + 1))) else .none
termination_by 2 * (nestingLimit - depth)

/-- A power one level deeper, if the limit admits it. -/
def powerInside (depth : Nat) : Reader :=
  if depth < nestingLimit then powerAt (depth + 1) else .none
termination_by 2 * (nestingLimit - depth)

end

/-- The rule of a precedence at a depth, with all rules that it calls at theirs. -/
def Precedence.confined (depth : Nat) : Precedence → Reader
  | sum => .confined depth (sumBody (powerAt depth))
  | product => .confined depth (productBody (powerAt depth))
  | power => powerAt depth
  | operand => .confined depth (operandBody (sumInside depth))
  | primary => .confined depth (primaryBody (sumInside depth))

/-- A rule that leaves as many levels as it finds is not disturbed by being watched. -/
theorem Reader.Agrees.confined {reader : Reader} (level : Precedence)
    (h : reader.Agrees level.read depth) (hdepth : depth ≤ nestingLimit) :
    (Reader.confined depth reader).Agrees level.read depth := by
  rintro assembly rfl tokens
  rw [Reader.confined, if_pos rfl, h rfl tokens]
  match hread : level.read assembly tokens with
  | .error error => rfl
  | .ok (extended, rest) =>
    change (if extended.depth = assembly.depth then _ else _) = _
    rw [if_pos (level.depth_of_read hdepth hread)]
    rfl

theorem sumInside_agrees (hdeeper : depth < nestingLimit)
    (hpower : (powerAt (depth + 1)).Agrees power (depth + 1)) :
    (sumInside depth).Agrees sum (depth + 1) := by
  rw [sumInside, if_pos hdeeper]
  exact (sumBody_agrees hpower hdeeper).confined .sum hdeeper

/-- The induction is on the levels that can still be opened. -/
theorem powerAt_agrees {depth : Nat} (hdepth : depth ≤ nestingLimit) :
    (powerAt depth).Agrees power depth := by
  rw [powerAt]
  refine (powerBody_agrees hdepth (fun hdeeper ↦ ?_) fun hdeeper ↦ ?_).confined .power hdepth
  · exact sumInside_agrees hdeeper (powerAt_agrees hdeeper)
  · rw [powerInside, if_pos hdeeper]
    exact powerAt_agrees hdeeper
termination_by nestingLimit - depth

namespace Precedence

/-- The rules find and leave their levels as they should, whatever tokens they are given and whether
they succeed or not. -/
theorem confined_agrees (level : Precedence) (hdepth : depth ≤ nestingLimit) :
    (level.confined depth).Agrees level.read depth := by
  have hpower := powerAt_agrees hdepth
  have hsum : depth < nestingLimit → (sumInside depth).Agrees Grammar.sum (depth + 1) :=
    fun hdeeper ↦ sumInside_agrees hdeeper (powerAt_agrees hdeeper)
  cases level with
  | sum => exact (sumBody_agrees hpower hdepth).confined .sum hdepth
  | product => exact (productBody_agrees hpower hdepth).confined .product hdepth
  | power => exact hpower
  | operand => exact (operandBody_agrees hsum).confined .operand hdepth
  | primary => exact (primaryBody_agrees hsum).confined .primary hdepth

/-- A rule that succeeds takes some tokens from the beginning, up to one with which no phrase of its
precedence goes on. It leaves the instructions before its own and the open levels as they were, also
on the way, and its own instructions are one expression in postfix order, which it appends to
whatever it is given, if that has the same vocabulary and no more open levels. -/
theorem read_leaves_one (level : Precedence) {rest : Rest tokens.length}
    (hdepth : assembly.depth ≤ nestingLimit)
    (h : level.read assembly tokens = .ok (extended, rest)) :
    (∃ taken, taken ≠ [] ∧ taken ++ rest.val = tokens ∧ level.rule.EndsBefore taken rest.val) ∧
    extended.depth = assembly.depth ∧
    level.confined assembly.depth assembly tokens = .of (.ok (extended, rest)) ∧
    ∃ instructions, extended = assembly.emitAll instructions ∧
      Postfix assembly.vocabulary instructions ∧
      assembly.vocabulary.heightAfter 0 instructions = some 1 ∧
      ∀ other : Assembly, other.vocabulary = assembly.vocabulary → other.depth ≤ assembly.depth →
        level.read other tokens = .ok (other.emitAll instructions, rest) := by
  obtain ⟨phrase, htokens, hassembles, hends⟩ := level.exists_isRead h
  obtain ⟨hfits, hlevels, rfl⟩ := (phrase.emits_assemble hdepth).mp hassembles
  have hpostfix := level.postfix_emission phrase hfits
  have hconfined := level.confined_agrees hdepth rfl tokens
  rw [h] at hconfined
  refine ⟨⟨phrase.tokens, level.tokens_ne_nil phrase, htokens, hends⟩, rfl, hconfined,
    phrase.emission, rfl, hpostfix, postfix_iff_heightAfter.mp hpostfix, ?_⟩
  intro other hvocabulary hother
  rw [← hvocabulary] at hfits
  exact level.read_tokens htokens hends hfits (by omega)

/-- A power where one more level can be opened, behind another operand and before the bracket that
closes the last level. It has the same instructions where nothing stands before it. -/
theorem read_leaves_one_power :
    let tokens : List PlacedToken :=
      [⟨.name "y", 5⟩, ⟨.mark .power, 6⟩, ⟨.number 2, 7⟩, ⟨.mark .closeParen, 8⟩]
    let rest : Rest tokens.length := ⟨[⟨.mark .closeParen, 8⟩], by decide⟩
    let assembly : Assembly :=
      { vocabulary := .standard, textEnd := 9, depth := 255, emitted := [.load "x"] }
    let extended : Assembly :=
      { assembly with emitted := [.operator '^', .number 2, .load "y", .load "x"] }
    power.read assembly tokens = .ok (extended, rest) ∧
    (∃ taken, taken ≠ [] ∧ taken ++ rest.val = tokens ∧ Rule.power.EndsBefore taken rest.val) ∧
    power.confined 255 assembly tokens = .of (.ok (extended, rest)) ∧
    ∃ instructions, extended = assembly.emitAll instructions ∧
      Vocabulary.standard.heightAfter 0 instructions = some 1 ∧
      power.read { vocabulary := .standard, textEnd := 9 } tokens =
        .ok (Assembly.emitAll { vocabulary := .standard, textEnd := 9 } instructions, rest) := by
  intro tokens rest assembly extended
  have hread : power.read assembly tokens = .ok (extended, rest) := by with_unfolding_all rfl
  obtain ⟨htaken, -, hconfined, instructions, hextended, -, hheight, hother⟩ :=
    power.read_leaves_one (by decide) hread
  exact ⟨hread, htaken, hconfined, instructions, hextended, hheight,
    hother _ rfl (Nat.zero_le _)⟩

end Precedence

end BeamCalc.Grammar
