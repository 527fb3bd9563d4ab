import BeamCalc.Proofs.Grammar.Phrase
import Mathlib.Data.List.Basic

/-!
# Where phrases end

A rule takes as many tokens as it can, so a phrase is read to its end only if what follows does not
belong to it: no operator of its level or a tighter one, and no opening bracket behind a name.
`EndsBefore` states this, with one equivalence for each way a phrase is put together.

Two phrases of a rule that end where they end and begin a list of tokens alike are the same
(`eq_of_append_eq`). Hence the grammar is unambiguous: `tokens_injective`.
-/

set_option autoImplicit false
set_option relaxedAutoImplicit false

namespace BeamCalc.Grammar

/-! ### What goes on with a phrase -/

/-- Whether a phrase of a rule goes on when a mark follows. -/
def Rule.goesOn : Rule → Mark → Bool
  | sum, sign | furtherTerms, sign => sign.isOperator
  | product, sign | furtherFactors, sign => sign.isMultiplicative || sign = .power
  | power, sign => sign = .power
  | arguments, sign => sign.isOperator || sign = .comma
  | operand, _ | negatable, _ | primary, _ => false

/-- Whether the last token is a name. -/
def EndsInName (tokens : List PlacedToken) : Prop :=
  ∃ name position, tokens.getLast? = some ⟨.name name, position⟩

theorem endsInName_cons {first : PlacedToken} {tokens : List PlacedToken} (h : tokens ≠ []) :
    EndsInName (first :: tokens) ↔ EndsInName tokens := by
  rw [EndsInName, List.getLast?_cons_of_ne_nil h, EndsInName]

theorem endsInName_append (before : List PlacedToken) {tokens : List PlacedToken}
    (h : tokens ≠ []) :
    EndsInName (before ++ tokens) ↔ EndsInName tokens := by
  rw [EndsInName, List.getLast?_append_of_ne_nil before h, EndsInName]

theorem not_endsInName_nil : ¬EndsInName [] := by
  rintro ⟨name, position, h⟩
  cases h

/-- Whether the tokens `after` do not belong to a phrase of the rule that has `tokens`. -/
def Rule.EndsBefore (rule : Rule) (tokens after : List PlacedToken) : Prop :=
  ∀ sign position rest, after = ⟨.mark sign, position⟩ :: rest →
    rule.goesOn sign = false ∧ (sign = .openParen → ¬EndsInName tokens)

namespace Rule.EndsBefore

variable {rule inner : Rule} {tokens tokens' after : List PlacedToken}

theorem nil : rule.EndsBefore tokens [] := by
  intro sign position rest h
  cases h

theorem mark {sign : Mark} (position : Nat) (hsign : rule.goesOn sign = false)
    (hopen : sign ≠ .openParen) : rule.EndsBefore tokens (⟨.mark sign, position⟩ :: after) := by
  intro sign' position' rest h
  cases h
  exact ⟨hsign, fun h ↦ absurd h hopen⟩

/-- A phrase at the end of another one ends where that ends. -/
theorem mono (h : rule.EndsBefore tokens after)
    (hgoes : ∀ sign, rule.goesOn sign = false → inner.goesOn sign = false)
    (hname : EndsInName tokens' → EndsInName tokens) : inner.EndsBefore tokens' after := by
  intro sign position rest hafter
  obtain ⟨hsign, hopen⟩ := h sign position rest hafter
  exact ⟨hgoes sign hsign, fun h hends ↦ hopen h (hname hends)⟩

/-- A token before the others does not matter. -/
theorem cons_iff {first : PlacedToken} (h : tokens ≠ []) :
    rule.EndsBefore (first :: tokens) after ↔ rule.EndsBefore tokens after := by
  simp only [Rule.EndsBefore, endsInName_cons h]

end Rule.EndsBefore

/-- Whether tokens are none, or begin with a mark with which a phrase of the rule does not go on. -/
def Rule.Interrupts (rule : Rule) (tokens : List PlacedToken) : Prop :=
  tokens = [] ∨ ∃ sign position rest, tokens = ⟨.mark sign, position⟩ :: rest ∧
    rule.goesOn sign = false ∧ sign ≠ .openParen

/-- A phrase and what interrupts it, put together, end where both do. -/
theorem Rule.endsBefore_append_iff {whole head tail : Rule}
    {tokens tokens' after : List PlacedToken}
    (hhead : ∀ sign, whole.goesOn sign = false → head.goesOn sign = false)
    (htail : tail.goesOn = whole.goesOn) (hinterrupts : head.Interrupts tokens') :
    whole.EndsBefore (tokens ++ tokens') after ↔
      head.EndsBefore tokens (tokens' ++ after) ∧ tail.EndsBefore tokens' after := by
  rcases hinterrupts with rfl | ⟨sign, position, more, rfl, hsign, hopen⟩
  · rw [List.append_nil, List.nil_append]
    constructor
    · intro h
      refine ⟨h.mono hhead id, h.mono ?_ fun hname ↦ absurd hname not_endsInName_nil⟩
      rw [htail]
      exact fun _ ↦ id
    · rintro ⟨hfirst, hothers⟩ sign position rest hafter
      rw [← htail]
      exact ⟨(hothers sign position rest hafter).1, (hfirst sign position rest hafter).2⟩
  · have hname := endsInName_append tokens (List.cons_ne_nil ⟨.mark sign, position⟩ more)
    constructor
    · intro h
      refine ⟨.mark position hsign hopen, h.mono ?_ hname.mpr⟩
      rw [htail]
      exact fun _ ↦ id
    · rintro ⟨-, hothers⟩
      refine hothers.mono ?_ hname.mp
      rw [htail]
      exact fun _ ↦ id

namespace Phrase

variable {rule : Rule}

/-- Phrases are not empty, except where a sum or a product need not go on. -/
theorem tokens_ne_nil (phrase : Phrase rule) (hterms : rule ≠ .furtherTerms)
    (hfactors : rule ≠ .furtherFactors) : phrase.tokens ≠ [] := by
  induction phrase with
  | sum first others ihfirst _ => simp [tokens, ihfirst]
  | noTerm => exact absurd rfl hterms
  | term => exact absurd rfl hterms
  | product first others ihfirst _ => simp [tokens, ihfirst]
  | noFactor => exact absurd rfl hfactors
  | factor => exact absurd rfl hfactors
  | unraised base ih => simp [tokens, ih]
  | unsigned inner ih => simp [tokens, ih]
  | bare inner ih => simp [tokens, ih]
  | last argument ih => simp [tokens, ih]
  | _ => simp [tokens]

/-- Whether the tokens `after` do not belong to a phrase. -/
def EndsBefore (phrase : Phrase rule) (after : List PlacedToken) : Prop :=
  rule.EndsBefore phrase.tokens after

variable {after : List PlacedToken}

/-! ### Phrases put together -/

theorem interrupts_furtherTerms (others : Phrase .furtherTerms) :
    Rule.product.Interrupts others.tokens := by
  cases others with
  | noTerm => exact Or.inl rfl
  | term sign additive position next others =>
    refine Or.inr ⟨sign, position, _, rfl, ?_⟩
    cases sign <;> trivial

theorem interrupts_furtherFactors (others : Phrase .furtherFactors) :
    Rule.power.Interrupts others.tokens := by
  cases others with
  | noFactor => exact Or.inl rfl
  | factor sign multiplicative position next others =>
    refine Or.inr ⟨sign, position, _, rfl, ?_⟩
    cases sign <;> trivial

/-- An operator that does not join terms or anything tighter does not join factors. -/
theorem goesOn_product {sign : Mark} (h : Rule.furtherTerms.goesOn sign = false) :
    Rule.product.goesOn sign = false := by
  cases sign <;> first | rfl | cases h

theorem goesOn_power {sign : Mark} (h : Rule.furtherFactors.goesOn sign = false) :
    Rule.power.goesOn sign = false := by
  cases sign <;> first | rfl | cases h

theorem endsBefore_sum_iff {first : Phrase .product} {others : Phrase .furtherTerms} :
    (sum first others).EndsBefore after ↔
      first.EndsBefore (others.tokens ++ after) ∧ others.EndsBefore after :=
  Rule.endsBefore_append_iff (fun _ ↦ goesOn_product) rfl (interrupts_furtherTerms others)

theorem endsBefore_term_iff {sign : Mark} {additive : sign.isAdditive} {position : Nat}
    {next : Phrase .product} {others : Phrase .furtherTerms} :
    (term sign additive position next others).EndsBefore after ↔
      next.EndsBefore (others.tokens ++ after) ∧ others.EndsBefore after := by
  refine (Rule.EndsBefore.cons_iff ?_).trans
    (Rule.endsBefore_append_iff (fun _ ↦ goesOn_product) rfl (interrupts_furtherTerms others))
  simp [next.tokens_ne_nil]

theorem endsBefore_product_iff {first : Phrase .power} {others : Phrase .furtherFactors} :
    (product first others).EndsBefore after ↔
      first.EndsBefore (others.tokens ++ after) ∧ others.EndsBefore after :=
  Rule.endsBefore_append_iff (fun _ ↦ goesOn_power) rfl (interrupts_furtherFactors others)

theorem endsBefore_factor_iff {sign : Mark} {multiplicative : sign.isMultiplicative}
    {position : Nat} {next : Phrase .power} {others : Phrase .furtherFactors} :
    (factor sign multiplicative position next others).EndsBefore after ↔
      next.EndsBefore (others.tokens ++ after) ∧ others.EndsBefore after := by
  refine (Rule.EndsBefore.cons_iff ?_).trans
    (Rule.endsBefore_append_iff (fun _ ↦ goesOn_power) rfl (interrupts_furtherFactors others))
  simp [next.tokens_ne_nil]

theorem endsBefore_unraised_iff {base : Phrase .operand} :
    (unraised base).EndsBefore after ↔
      base.EndsBefore after ∧ ∀ position rest, after ≠ ⟨.mark .power, position⟩ :: rest := by
  constructor
  · intro h
    refine ⟨h.mono (fun _ _ ↦ rfl) id, ?_⟩
    rintro position rest rfl
    cases (h .power position rest rfl).1
  · rintro ⟨hbase, hpower⟩ sign position rest rfl
    refine ⟨?_, (hbase sign position rest rfl).2⟩
    cases sign with
    | power => exact absurd rfl (hpower position rest)
    | _ => rfl

theorem endsBefore_raised_iff {base : Phrase .operand} {position : Nat}
    {exponent : Phrase .power} :
    (raised base position exponent).EndsBefore after ↔ exponent.EndsBefore after := by
  have hexponent := exponent.tokens_ne_nil (by simp) (by simp)
  have hname := (endsInName_append base.tokens
    (List.cons_ne_nil ⟨.mark .power, position⟩ exponent.tokens)).trans (endsInName_cons hexponent)
  constructor
  · exact fun h ↦ h.mono (fun _ ↦ id) hname.mpr
  · exact fun h ↦ Rule.EndsBefore.mono h (fun _ ↦ id) hname.mp

/-- A base ends before the `^`. -/
theorem endsBefore_power (base : Phrase .operand) (position : Nat) :
    base.EndsBefore (⟨.mark .power, position⟩ :: after) :=
  .mark position rfl (by simp)

theorem endsBefore_unsigned_iff {inner : Phrase .primary} :
    (unsigned inner).EndsBefore after ↔ inner.EndsBefore after :=
  Iff.rfl

theorem endsBefore_bare_iff {inner : Phrase .primary} :
    (bare inner).EndsBefore after ↔ inner.EndsBefore after :=
  Iff.rfl

theorem endsBefore_negated_iff {position : Nat} {inner : Phrase .negatable} :
    (negated position inner).EndsBefore after ↔ inner.EndsBefore after :=
  Rule.EndsBefore.cons_iff (inner.tokens_ne_nil (by simp) (by simp))

theorem endsBefore_named_iff {position : Nat} {name : String} :
    (named position name).EndsBefore after ↔
      ∀ opening rest, after ≠ ⟨.mark .openParen, opening⟩ :: rest := by
  constructor
  · rintro h opening rest rfl
    exact (h .openParen opening rest rfl).2 rfl ⟨name, position, rfl⟩
  · rintro h sign position rest rfl
    refine ⟨rfl, ?_⟩
    rintro rfl
    exact absurd rfl (h position rest)

theorem endsBefore_of_last {argument : Phrase .sum} (h : (last argument).EndsBefore after) :
    argument.EndsBefore after :=
  h.mono (by intro sign; cases sign <;> decide) id

theorem endsBefore_of_further {argument : Phrase .sum} {comma : Nat}
    {others : Phrase .arguments} (h : (further argument comma others).EndsBefore after) :
    others.EndsBefore after := by
  have hothers := others.tokens_ne_nil (by simp) (by simp)
  have hname := (endsInName_append argument.tokens
    (List.cons_ne_nil ⟨.mark .comma, comma⟩ others.tokens)).trans (endsInName_cons hothers)
  exact h.mono (fun _ ↦ id) hname.mpr

/-- A number or a closing bracket is the end of a primary, whatever follows. -/
theorem endsBefore_of_number (before : List PlacedToken) (value : Float) (position : Nat) :
    Rule.negatable.EndsBefore (before ++ [⟨.number value, position⟩]) after := by
  rintro sign start rest -
  refine ⟨rfl, ?_⟩
  rintro - ⟨name, _, h⟩
  simp at h

theorem endsBefore_of_closeParen (before : List PlacedToken) (closing : Nat) :
    Rule.negatable.EndsBefore (before ++ [⟨.mark .closeParen, closing⟩]) after := by
  rintro sign start rest -
  refine ⟨rfl, ?_⟩
  rintro - ⟨name, _, h⟩
  simp at h

/-- A sum ends before the comma or the bracket behind it. -/
theorem endsBefore_comma (argument : Phrase .sum) (comma : Nat) :
    argument.EndsBefore (⟨.mark .comma, comma⟩ :: after) :=
  .mark comma rfl (by simp)

theorem endsBefore_closeParen (inner : Phrase .sum) (closing : Nat) :
    inner.EndsBefore (⟨.mark .closeParen, closing⟩ :: after) :=
  .mark closing rfl (by simp)

/-! ### The grammar is unambiguous -/

/-- No primary begins with a minus. -/
theorem tokens_append_ne_minus (inner : Phrase .primary) (position : Nat)
    (rest : List PlacedToken) : inner.tokens ++ after ≠ ⟨.mark .minus, position⟩ :: rest := by
  cases inner <;> simp [tokens]

/-- The terms of a sum do not end before another term, nor the factors before another factor. -/
theorem not_endsBefore_of_goesOn {phrase : Phrase rule} {sign : Mark} {position : Nat}
    (hsign : rule.goesOn sign) : ¬phrase.EndsBefore (⟨.mark sign, position⟩ :: after) := by
  intro h
  have hends := (h sign position after rfl).1
  rw [hsign] at hends
  cases hends

theorem goesOn_of_isAdditive {sign : Mark} (h : sign.isAdditive) :
    Rule.furtherTerms.goesOn sign := by
  cases sign <;> first | rfl | cases h

theorem goesOn_of_isMultiplicative {sign : Mark} (h : sign.isMultiplicative) :
    Rule.furtherFactors.goesOn sign := by
  cases sign <;> first | rfl | cases h

/-- The operators are those that join terms and those with which a product goes on. -/
theorem goesOn_furtherTerms_eq_false {sign : Mark} (h : Rule.product.goesOn sign = false)
    (hsign : ¬sign.isAdditive) : Rule.furtherTerms.goesOn sign = false := by
  cases sign <;> simp_all [Rule.goesOn, Mark.isAdditive, Mark.isMultiplicative, Mark.isOperator]

theorem goesOn_furtherFactors_eq_false {sign : Mark} (h : Rule.power.goesOn sign = false)
    (hsign : ¬sign.isMultiplicative) : Rule.furtherFactors.goesOn sign = false := by
  cases sign <;> simp_all [Rule.goesOn, Mark.isMultiplicative]

/-- Phrases of one rule that begin a list of tokens, and do not belong to longer ones there, are
the same. -/
theorem eq_of_append_eq (phrase other : Phrase rule) {after after' : List PlacedToken}
    (hends : phrase.EndsBefore after) (hends' : other.EndsBefore after')
    (h : phrase.tokens ++ after = other.tokens ++ after') : phrase = other ∧ after = after' := by
  induction phrase generalizing after after' with
  | sum first others ihfirst ihothers =>
    cases other with
    | sum first' others' =>
      obtain ⟨hfirst, hothers⟩ := endsBefore_sum_iff.mp hends
      obtain ⟨hfirst', hothers'⟩ := endsBefore_sum_iff.mp hends'
      rw [tokens, tokens, List.append_assoc, List.append_assoc] at h
      obtain ⟨rfl, hrest⟩ := ihfirst first' hfirst hfirst' h
      obtain ⟨rfl, rfl⟩ := ihothers others' hothers hothers' hrest
      exact ⟨rfl, rfl⟩
  | noTerm =>
    cases other with
    | noTerm => exact ⟨rfl, h⟩
    | term sign additive =>
      obtain rfl : after = _ := h
      exact absurd hends (not_endsBefore_of_goesOn (goesOn_of_isAdditive additive))
  | term sign additive position next others ihnext ihothers =>
    cases other with
    | noTerm =>
      obtain rfl : _ = after' := h
      exact absurd hends' (not_endsBefore_of_goesOn (goesOn_of_isAdditive additive))
    | term sign' additive' position' next' others' =>
      obtain ⟨hnext, hothers⟩ := endsBefore_term_iff.mp hends
      obtain ⟨hnext', hothers'⟩ := endsBefore_term_iff.mp hends'
      simp only [tokens, List.cons_append, List.append_assoc, List.cons.injEq,
        PlacedToken.mk.injEq, Token.mark.injEq] at h
      obtain ⟨⟨rfl, rfl⟩, hrest⟩ := h
      obtain ⟨rfl, hleft⟩ := ihnext next' hnext hnext' hrest
      obtain ⟨rfl, rfl⟩ := ihothers others' hothers hothers' hleft
      exact ⟨rfl, rfl⟩
  | product first others ihfirst ihothers =>
    cases other with
    | product first' others' =>
      obtain ⟨hfirst, hothers⟩ := endsBefore_product_iff.mp hends
      obtain ⟨hfirst', hothers'⟩ := endsBefore_product_iff.mp hends'
      rw [tokens, tokens, List.append_assoc, List.append_assoc] at h
      obtain ⟨rfl, hrest⟩ := ihfirst first' hfirst hfirst' h
      obtain ⟨rfl, rfl⟩ := ihothers others' hothers hothers' hrest
      exact ⟨rfl, rfl⟩
  | noFactor =>
    cases other with
    | noFactor => exact ⟨rfl, h⟩
    | factor sign multiplicative =>
      obtain rfl : after = _ := h
      exact absurd hends (not_endsBefore_of_goesOn (goesOn_of_isMultiplicative multiplicative))
  | factor sign multiplicative position next others ihnext ihothers =>
    cases other with
    | noFactor =>
      obtain rfl : _ = after' := h
      exact absurd hends' (not_endsBefore_of_goesOn (goesOn_of_isMultiplicative multiplicative))
    | factor sign' multiplicative' position' next' others' =>
      obtain ⟨hnext, hothers⟩ := endsBefore_factor_iff.mp hends
      obtain ⟨hnext', hothers'⟩ := endsBefore_factor_iff.mp hends'
      simp only [tokens, List.cons_append, List.append_assoc, List.cons.injEq,
        PlacedToken.mk.injEq, Token.mark.injEq] at h
      obtain ⟨⟨rfl, rfl⟩, hrest⟩ := h
      obtain ⟨rfl, hleft⟩ := ihnext next' hnext hnext' hrest
      obtain ⟨rfl, rfl⟩ := ihothers others' hothers hothers' hleft
      exact ⟨rfl, rfl⟩
  | unraised base ih =>
    obtain ⟨hbase, hpower⟩ := endsBefore_unraised_iff.mp hends
    cases other with
    | unraised base' =>
      obtain ⟨rfl, rfl⟩ := ih base' hbase (endsBefore_unraised_iff.mp hends').1 h
      exact ⟨rfl, rfl⟩
    | raised base' position exponent =>
      rw [tokens, tokens, List.append_assoc, List.cons_append] at h
      obtain ⟨-, rfl⟩ := ih base' hbase (endsBefore_power base' position) h
      exact absurd rfl (hpower position _)
  | raised base position exponent ihbase ihexponent =>
    rw [tokens, List.append_assoc, List.cons_append] at h
    have hbase : base.EndsBefore (⟨.mark .power, position⟩ :: (exponent.tokens ++ after)) :=
      endsBefore_power base position
    cases other with
    | unraised base' =>
      obtain ⟨hbase', hpower⟩ := endsBefore_unraised_iff.mp hends'
      obtain ⟨-, rfl⟩ := ihbase base' hbase hbase' h
      exact absurd rfl (hpower position _)
    | raised base' position' exponent' =>
      rw [tokens, List.append_assoc, List.cons_append] at h
      obtain ⟨rfl, hrest⟩ := ihbase base' hbase (endsBefore_power base' position') h
      simp only [List.cons.injEq, PlacedToken.mk.injEq, true_and] at hrest
      obtain ⟨rfl, hrest⟩ := hrest
      obtain ⟨rfl, rfl⟩ := ihexponent exponent' (endsBefore_raised_iff.mp hends)
        (endsBefore_raised_iff.mp hends') hrest
      exact ⟨rfl, rfl⟩
  | unsigned inner ih =>
    cases other with
    | unsigned inner' =>
      obtain ⟨rfl, rfl⟩ := ih inner' hends hends' h
      exact ⟨rfl, rfl⟩
    | negated position inner' => exact absurd h (tokens_append_ne_minus inner position _)
  | negated position inner ih =>
    cases other with
    | unsigned inner' => exact absurd h.symm (tokens_append_ne_minus inner' position _)
    | negated position' inner' =>
      simp only [tokens, List.cons_append, List.cons.injEq, PlacedToken.mk.injEq, true_and] at h
      obtain ⟨rfl, hrest⟩ := h
      obtain ⟨rfl, rfl⟩ := ih inner' (endsBefore_negated_iff.mp hends)
        (endsBefore_negated_iff.mp hends') hrest
      exact ⟨rfl, rfl⟩
  | bare inner ih =>
    cases other with
    | bare inner' =>
      obtain ⟨rfl, rfl⟩ := ih inner' hends hends' h
      exact ⟨rfl, rfl⟩
    | negative position value => exact absurd h (tokens_append_ne_minus inner position _)
  | negative position value =>
    cases other with
    | bare inner' => exact absurd h.symm (tokens_append_ne_minus inner' position _)
    | negative position' value' => simp_all [tokens]
  | number position value => cases other <;> simp_all [tokens]
  | positive position value => cases other <;> simp_all [tokens]
  | named position name =>
    cases other with
    | named position' name' => simp_all [tokens]
    | call position' name' opening =>
      simp only [tokens, List.cons_append, List.nil_append, List.cons.injEq] at h
      exact absurd h.2 (endsBefore_named_iff.mp hends opening _)
    | _ => simp [tokens] at h
  | call position name opening arguments closing ih =>
    cases other with
    | named position' name' =>
      simp only [tokens, List.cons_append, List.nil_append, List.cons.injEq] at h
      exact absurd h.2.symm (endsBefore_named_iff.mp hends' opening _)
    | call position' name' opening' arguments' closing' =>
      simp only [tokens, List.cons_append, List.append_assoc, List.nil_append, List.cons.injEq,
        PlacedToken.mk.injEq, Token.name.injEq, true_and] at h
      obtain ⟨⟨rfl, rfl⟩, rfl, hrest⟩ := h
      obtain ⟨rfl, hrest⟩ := ih arguments' (.mark closing rfl (by simp))
        (.mark closing' rfl (by simp)) hrest
      simp_all
    | _ => simp [tokens] at h
  | group opening inner closing ih =>
    cases other with
    | group opening' inner' closing' =>
      simp only [tokens, List.cons_append, List.append_assoc, List.nil_append, List.cons.injEq,
        PlacedToken.mk.injEq, true_and] at h
      obtain ⟨rfl, hrest⟩ := h
      obtain ⟨rfl, hrest⟩ := ih inner' (endsBefore_closeParen inner closing)
        (endsBefore_closeParen inner' closing') hrest
      simp_all
    | _ => simp [tokens] at h
  | last argument ih =>
    have hargument := endsBefore_of_last hends
    cases other with
    | last argument' =>
      obtain ⟨rfl, rfl⟩ := ih argument' hargument (endsBefore_of_last hends') h
      exact ⟨rfl, rfl⟩
    | further argument' comma others' =>
      rw [tokens, tokens, List.append_assoc, List.cons_append] at h
      obtain ⟨-, rfl⟩ := ih argument' hargument (endsBefore_comma argument' comma) h
      exact absurd hends (not_endsBefore_of_goesOn rfl)
  | further argument comma others ihargument ihothers =>
    rw [tokens, List.append_assoc, List.cons_append] at h
    have hargument : argument.EndsBefore (⟨.mark .comma, comma⟩ :: (others.tokens ++ after)) :=
      endsBefore_comma argument comma
    cases other with
    | last argument' =>
      obtain ⟨-, rfl⟩ := ihargument argument' hargument (endsBefore_of_last hends') h
      exact absurd hends' (not_endsBefore_of_goesOn rfl)
    | further argument' comma' others' =>
      rw [tokens, List.append_assoc, List.cons_append] at h
      obtain ⟨rfl, hrest⟩ := ihargument argument' hargument (endsBefore_comma argument' comma') h
      simp only [List.cons.injEq, PlacedToken.mk.injEq, true_and] at hrest
      obtain ⟨rfl, hrest⟩ := hrest
      obtain ⟨rfl, rfl⟩ := ihothers others' (endsBefore_of_further hends)
        (endsBefore_of_further hends') hrest
      exact ⟨rfl, rfl⟩

/-- The grammar is unambiguous: phrases of one rule with the same tokens are the same. -/
theorem tokens_injective : Function.Injective fun phrase : Phrase rule ↦ phrase.tokens := by
  intro phrase other h
  have happend : phrase.tokens ++ [] = other.tokens ++ [] := by
    rw [List.append_nil, List.append_nil]
    exact h
  exact (eq_of_append_eq phrase other .nil .nil happend).1

end Phrase

end BeamCalc.Grammar
