import BeamCalc.Proofs.Evaluation.Substitution
import BeamCalc.Proofs.Grammar.Placement
import BeamCalc.Proofs.Grammar.Unambiguity
import BeamCalc.Proofs.Token.Replacement

/-!
# Replacing a name in a phrase

Where tokens in brackets stand for a name, they are a group, and the phrase around them is as it was
(`Phrase.exists_replaced`). So the instructions are those in which the instructions of the bracketed
tokens stand for the name, all calls have as many arguments as before, and the phrase is deeper by
at most the brackets and what they enclose (`Phrase.Replaced`).
-/

set_option autoImplicit false
set_option relaxedAutoImplicit false

namespace BeamCalc

namespace Grammar.Phrase

open Token

/-- Arguments are as many as before. -/
def SameCount : {rule : Rule} → Phrase rule → Phrase rule → Prop
  | .arguments, phrase, phrase' => phrase'.count = phrase.count
  | _, _, _ => True

/-- What a phrase has become in which a group stands for a name. -/
structure Replaced {rule : Rule} (phrase : Phrase rule) (name : String) (inner : Phrase .sum)
    (phrase' : Phrase rule) : Prop where
  emission_eq : phrase'.emission =
    phrase.emission.flatMap (Instruction.substitute name inner.emission)
  callsFit : ∀ vocabulary, inner.CallsFit vocabulary → phrase.CallsFit vocabulary →
    phrase'.CallsFit vocabulary
  depth_le : phrase'.depth ≤ phrase.depth + (inner.depth + 1)
  sameCount : phrase.SameCount phrase'

namespace Replaced

variable {name : String} {inner : Phrase .sum}

section

variable {first second : Rule} {left left' : Phrase first} {right right' : Phrase second}
  (hleft : left.Replaced name inner left') (hright : right.Replaced name inner right')

include hleft hright

/-- The calls of two parts. -/
theorem callsFit_and (vocabulary : Vocabulary) (hinner : inner.CallsFit vocabulary)
    (hfits : left.CallsFit vocabulary ∧ right.CallsFit vocabulary) :
    left'.CallsFit vocabulary ∧ right'.CallsFit vocabulary :=
  ⟨hleft.callsFit vocabulary hinner hfits.1, hright.callsFit vocabulary hinner hfits.2⟩

/-- The depth of two parts. -/
theorem max_depth_le :
    max left'.depth right'.depth ≤ max left.depth right.depth + (inner.depth + 1) := by
  have hle := hleft.depth_le
  have hle' := hright.depth_le
  omega

end

theorem number (position position' : Nat) (value : Float) :
    (Phrase.number position value).Replaced name inner (.number position' value) :=
  ⟨by simp [emission, Instruction.substitute], fun _ _ _ ↦ trivial, Nat.zero_le _, trivial⟩

theorem positive (position position' : Nat) (value : Float) :
    (Phrase.positive position value).Replaced name inner (.positive position' value) :=
  ⟨by simp [emission, Instruction.substitute], fun _ _ _ ↦ trivial, Nat.zero_le _, trivial⟩

theorem negative (position position' : Nat) (value : Float) :
    (Phrase.negative position value).Replaced name inner (.negative position' value) :=
  ⟨by simp [emission, Instruction.substitute], fun _ _ _ ↦ trivial, Nat.zero_le _, trivial⟩

/-- Another name stays. -/
theorem named (position position' : Nat) {other : String} (h : other ≠ name) :
    (Phrase.named position other).Replaced name inner (.named position' other) :=
  ⟨by simp [emission, Instruction.substitute, h], fun _ _ _ ↦ trivial, Nat.zero_le _, trivial⟩

/-- A group stands for the name. -/
theorem exchanged (position opening distance closing : Nat) :
    (Phrase.named position name).Replaced name inner
      (.group opening (inner.moved distance) closing) := by
  refine ⟨by simp [emission, Instruction.substitute], fun vocabulary hinner _ ↦ ?_,
    by simp [depth], trivial⟩
  simpa [CallsFit] using hinner

theorem group {phrase phrase' : Phrase .sum} (h : phrase.Replaced name inner phrase')
    (opening closing opening' closing' : Nat) :
    (Phrase.group opening phrase closing).Replaced name inner
      (.group opening' phrase' closing') := by
  refine ⟨h.emission_eq, h.callsFit, ?_, trivial⟩
  have hdepth := h.depth_le
  simp only [depth]
  omega

theorem call {arguments arguments' : Phrase .arguments}
    (h : arguments.Replaced name inner arguments') (function : String)
    (position opening closing position' opening' closing' : Nat) :
    (Phrase.call position function opening arguments closing).Replaced name inner
      (.call position' function opening' arguments' closing') := by
  have hcount : arguments'.count = arguments.count := h.sameCount
  refine ⟨?_, fun vocabulary hinner hfits ↦ ⟨h.callsFit vocabulary hinner hfits.1, ?_⟩, ?_, trivial⟩
  · simp [emission, h.emission_eq, Instruction.substitute]
  · rw [hcount]
    exact hfits.2
  · have hdepth := h.depth_le
    simp only [depth]
    omega

theorem unsigned {phrase phrase' : Phrase .primary} (h : phrase.Replaced name inner phrase') :
    (Phrase.unsigned phrase).Replaced name inner (.unsigned phrase') :=
  ⟨h.emission_eq, h.callsFit, h.depth_le, trivial⟩

theorem bare {phrase phrase' : Phrase .primary} (h : phrase.Replaced name inner phrase') :
    (Phrase.bare phrase).Replaced name inner (.bare phrase') :=
  ⟨h.emission_eq, h.callsFit, h.depth_le, trivial⟩

theorem negated {phrase phrase' : Phrase .negatable} (h : phrase.Replaced name inner phrase')
    (position position' : Nat) :
    (Phrase.negated position phrase).Replaced name inner (.negated position' phrase') :=
  ⟨by simp [emission, h.emission_eq, Instruction.substitute], h.callsFit, h.depth_le, trivial⟩

theorem unraised {base base' : Phrase .operand} (h : base.Replaced name inner base') :
    (Phrase.unraised base).Replaced name inner (.unraised base') :=
  ⟨h.emission_eq, h.callsFit, h.depth_le, trivial⟩

theorem raised {base base' : Phrase .operand} {exponent exponent' : Phrase .power}
    (hbase : base.Replaced name inner base') (hexponent : exponent.Replaced name inner exponent')
    (position position' : Nat) :
    (Phrase.raised base position exponent).Replaced name inner
      (.raised base' position' exponent') := by
  refine ⟨?_, hbase.callsFit_and hexponent, ?_, trivial⟩
  · simp [emission, hbase.emission_eq, hexponent.emission_eq, Instruction.substitute]
  · have hdepth := hbase.depth_le
    have hdepth' := hexponent.depth_le
    simp only [depth]
    omega

theorem sum {first first' : Phrase .product} {others others' : Phrase .furtherTerms}
    (hfirst : first.Replaced name inner first') (hothers : others.Replaced name inner others') :
    (Phrase.sum first others).Replaced name inner (.sum first' others') := by
  refine ⟨?_, hfirst.callsFit_and hothers, hfirst.max_depth_le hothers, trivial⟩
  simp [emission, hfirst.emission_eq, hothers.emission_eq]

theorem term {next next' : Phrase .product} {others others' : Phrase .furtherTerms}
    (hnext : next.Replaced name inner next') (hothers : others.Replaced name inner others')
    {sign : Mark} (additive : sign.isAdditive) (position position' : Nat) :
    (Phrase.term sign additive position next others).Replaced name inner
      (.term sign additive position' next' others') := by
  refine ⟨?_, hnext.callsFit_and hothers, hnext.max_depth_le hothers, trivial⟩
  simp [emission, hnext.emission_eq, hothers.emission_eq, Instruction.substitute]

theorem product {first first' : Phrase .power} {others others' : Phrase .furtherFactors}
    (hfirst : first.Replaced name inner first') (hothers : others.Replaced name inner others') :
    (Phrase.product first others).Replaced name inner (.product first' others') := by
  refine ⟨?_, hfirst.callsFit_and hothers, hfirst.max_depth_le hothers, trivial⟩
  simp [emission, hfirst.emission_eq, hothers.emission_eq]

theorem factor {next next' : Phrase .power} {others others' : Phrase .furtherFactors}
    (hnext : next.Replaced name inner next') (hothers : others.Replaced name inner others')
    {sign : Mark} (multiplicative : sign.isMultiplicative) (position position' : Nat) :
    (Phrase.factor sign multiplicative position next others).Replaced name inner
      (.factor sign multiplicative position' next' others') := by
  refine ⟨?_, hnext.callsFit_and hothers, hnext.max_depth_le hothers, trivial⟩
  simp [emission, hnext.emission_eq, hothers.emission_eq, Instruction.substitute]

theorem last {argument argument' : Phrase .sum} (h : argument.Replaced name inner argument') :
    (Phrase.last argument).Replaced name inner (.last argument') :=
  ⟨h.emission_eq, h.callsFit, h.depth_le, by simp [SameCount, count]⟩

theorem further {argument argument' : Phrase .sum} {others others' : Phrase .arguments}
    (hargument : argument.Replaced name inner argument')
    (hothers : others.Replaced name inner others') (comma comma' : Nat) :
    (Phrase.further argument comma others).Replaced name inner
      (.further argument' comma' others') := by
  have hcount : others'.count = others.count := hothers.sameCount
  refine ⟨?_, hargument.callsFit_and hothers, hargument.max_depth_le hothers, ?_⟩
  · simp [emission, hargument.emission_eq, hothers.emission_eq]
  · simp only [SameCount, count, hcount]

end Replaced

/-- Tokens that a phrase derives, with tokens in brackets for a name, are those of a phrase. -/
theorem exists_replaced (name : String) (inner : Phrase .sum) {rule : Rule} (phrase : Phrase rule)
    {after tokens' : List PlacedToken} (hends : phrase.EndsBefore after)
    (h : Exchanges name inner.tokens (phrase.tokens ++ after) tokens') :
    ∃ phrase' after', tokens' = phrase'.tokens ++ after' ∧
      Exchanges name inner.tokens after after' ∧ phrase.Replaced name inner phrase' := by
  induction phrase generalizing after tokens' with
  | sum first others ihfirst ihothers =>
    obtain ⟨hfirst, hothers⟩ := endsBefore_sum_iff.mp hends
    rw [tokens, List.append_assoc] at h
    obtain ⟨first', rest, rfl, hrest, hreplaced⟩ := ihfirst hfirst h
    obtain ⟨others', after', rfl, hafter, hreplaced'⟩ := ihothers hothers hrest
    refine ⟨.sum first' others', after', ?_, hafter, hreplaced.sum hreplaced'⟩
    rw [tokens, List.append_assoc]
  | noTerm => exact ⟨.noTerm, tokens', rfl, h, rfl, fun _ _ _ ↦ trivial, Nat.zero_le _, trivial⟩
  | term sign additive position next others ihnext ihothers =>
    obtain ⟨hnext, hothers⟩ := endsBefore_term_iff.mp hends
    rw [tokens, List.cons_append, List.append_assoc] at h
    obtain ⟨position', rest, rfl, hrest⟩ := h.of_mark
    obtain ⟨next', rest', rfl, hrest', hreplaced⟩ := ihnext hnext hrest
    obtain ⟨others', after', rfl, hafter, hreplaced'⟩ := ihothers hothers hrest'
    refine ⟨.term sign additive position' next' others', after', ?_, hafter,
      hreplaced.term hreplaced' additive position position'⟩
    rw [tokens, List.cons_append, List.append_assoc]
  | product first others ihfirst ihothers =>
    obtain ⟨hfirst, hothers⟩ := endsBefore_product_iff.mp hends
    rw [tokens, List.append_assoc] at h
    obtain ⟨first', rest, rfl, hrest, hreplaced⟩ := ihfirst hfirst h
    obtain ⟨others', after', rfl, hafter, hreplaced'⟩ := ihothers hothers hrest
    refine ⟨.product first' others', after', ?_, hafter, hreplaced.product hreplaced'⟩
    rw [tokens, List.append_assoc]
  | noFactor => exact ⟨.noFactor, tokens', rfl, h, rfl, fun _ _ _ ↦ trivial, Nat.zero_le _, trivial⟩
  | factor sign multiplicative position next others ihnext ihothers =>
    obtain ⟨hnext, hothers⟩ := endsBefore_factor_iff.mp hends
    rw [tokens, List.cons_append, List.append_assoc] at h
    obtain ⟨position', rest, rfl, hrest⟩ := h.of_mark
    obtain ⟨next', rest', rfl, hrest', hreplaced⟩ := ihnext hnext hrest
    obtain ⟨others', after', rfl, hafter, hreplaced'⟩ := ihothers hothers hrest'
    refine ⟨.factor sign multiplicative position' next' others', after', ?_, hafter,
      hreplaced.factor hreplaced' multiplicative position position'⟩
    rw [tokens, List.cons_append, List.append_assoc]
  | unraised base ih =>
    obtain ⟨base', after', rfl, hafter, hreplaced⟩ := ih (endsBefore_unraised_iff.mp hends).1 h
    exact ⟨.unraised base', after', rfl, hafter, hreplaced.unraised⟩
  | raised base position exponent ihbase ihexponent =>
    rw [tokens, List.append_assoc, List.cons_append] at h
    obtain ⟨base', rest, rfl, hrest, hreplaced⟩ := ihbase (endsBefore_power base position) h
    obtain ⟨position', rest', rfl, hrest'⟩ := hrest.of_mark
    obtain ⟨exponent', after', rfl, hafter, hreplaced'⟩ :=
      ihexponent (endsBefore_raised_iff.mp hends) hrest'
    refine ⟨.raised base' position' exponent', after', ?_, hafter,
      hreplaced.raised hreplaced' position position'⟩
    rw [tokens, List.append_assoc, List.cons_append]
  | unsigned primary ih =>
    obtain ⟨primary', after', rfl, hafter, hreplaced⟩ := ih hends h
    exact ⟨.unsigned primary', after', rfl, hafter, hreplaced.unsigned⟩
  | negated position negatable ih =>
    rw [tokens, List.cons_append] at h
    obtain ⟨position', rest, rfl, hrest⟩ := h.of_mark
    obtain ⟨negatable', after', rfl, hafter, hreplaced⟩ :=
      ih (endsBefore_negated_iff.mp hends) hrest
    exact ⟨.negated position' negatable', after', rfl, hafter,
      hreplaced.negated position position'⟩
  | bare primary ih =>
    obtain ⟨primary', after', rfl, hafter, hreplaced⟩ := ih hends h
    exact ⟨.bare primary', after', rfl, hafter, hreplaced.bare⟩
  | negative position value =>
    obtain ⟨position', after', rfl, hafter⟩ := Exchanges.of_signed h
    exact ⟨.negative position' value, after', rfl, hafter, .negative position position' value⟩
  | number position value =>
    rw [tokens, List.singleton_append] at h
    obtain ⟨position', after', rfl, hafter, -⟩ := h.of_kept nofun
    exact ⟨.number position' value, after', rfl, hafter, .number position position' value⟩
  | positive position value =>
    obtain ⟨position', after', rfl, hafter⟩ := Exchanges.of_signed h
    exact ⟨.positive position' value, after', rfl, hafter, .positive position position' value⟩
  | named position other =>
    rw [tokens, List.singleton_append] at h
    have hopens : ¬Opens after := by
      rintro ⟨opening, rest, hrest⟩
      exact endsBefore_named_iff.mp hends opening rest hrest
    by_cases hother : other = name
    · subst hother
      obtain ⟨opening, distance, closing, after', rfl, hafter⟩ := h.of_exchanged hopens
      refine ⟨.group opening (inner.moved distance) closing, after', ?_, hafter,
        .exchanged position opening distance closing⟩
      simp [tokens]
    · obtain ⟨position', after', rfl, hafter, -⟩ :=
        h.of_kept fun hname ↦ absurd (Token.name.inj hname) hother
      exact ⟨.named position' other, after', rfl, hafter, .named position position' hother⟩
  | call position function opening arguments closing ih =>
    rw [tokens, List.cons_append, List.cons_append, List.append_assoc] at h
    obtain ⟨position', rest, rfl, hrest, -⟩ := h.of_kept fun _ ↦ ⟨opening, _, rfl⟩
    obtain ⟨opening', rest', rfl, hrest'⟩ := hrest.of_mark
    obtain ⟨arguments', rest'', rfl, hrest'', hreplaced⟩ := ih (.mark closing rfl (by simp)) hrest'
    obtain ⟨closing', after', rfl, hafter⟩ := hrest''.of_mark
    refine ⟨.call position' function opening' arguments' closing', after', ?_, hafter,
      hreplaced.call function position opening closing position' opening' closing'⟩
    simp [tokens]
  | group opening sum closing ih =>
    rw [tokens, List.cons_append, List.append_assoc] at h
    obtain ⟨opening', rest, rfl, hrest⟩ := h.of_mark
    obtain ⟨sum', rest', rfl, hrest', hreplaced⟩ := ih (endsBefore_closeParen sum closing) hrest
    obtain ⟨closing', after', rfl, hafter⟩ := hrest'.of_mark
    refine ⟨.group opening' sum' closing', after', ?_, hafter,
      hreplaced.group opening closing opening' closing'⟩
    simp [tokens]
  | last argument ih =>
    obtain ⟨argument', after', rfl, hafter, hreplaced⟩ := ih (endsBefore_of_last hends) h
    exact ⟨.last argument', after', rfl, hafter, hreplaced.last⟩
  | further argument comma others ihargument ihothers =>
    rw [tokens, List.append_assoc, List.cons_append] at h
    obtain ⟨argument', rest, rfl, hrest, hreplaced⟩ :=
      ihargument (endsBefore_comma argument comma) h
    obtain ⟨comma', rest', rfl, hrest'⟩ := hrest.of_mark
    obtain ⟨others', after', rfl, hafter, hreplaced'⟩ :=
      ihothers (endsBefore_of_further hends) hrest'
    refine ⟨.further argument' comma' others', after', ?_, hafter,
      hreplaced.further hreplaced' comma comma'⟩
    rw [tokens, List.append_assoc, List.cons_append]

end Grammar.Phrase

end BeamCalc
