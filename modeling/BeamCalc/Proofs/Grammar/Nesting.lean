import BeamCalc.Proofs.Grammar.Faults
import BeamCalc.Proofs.Grammar.Placement

/-!
# The nesting limit

Brackets and `^` open nesting levels, and an expression may not have more of them open at once than
`nestingLimit`. `Phrase.openings` lists the tokens of a derivation that open a level, in the order
of the text, with the number of levels that are open behind each.

`Program.ofTokens_nested` says what the limit does to an expression whose calls fit. Within the
limit it is a program. Beyond the limit the error is that of the first token that opens a level too
many. How long an expression is does not matter: a chain of operators as long as one likes is as
deep as the deepest of its operands (`Phrase.exists_chain`).
-/

set_option autoImplicit false
set_option relaxedAutoImplicit false

namespace BeamCalc

/-- Whether a token opens a nesting level. -/
def Token.opensLevel : Token → Bool
  | mark .openParen | mark .power => true
  | _ => false

namespace Grammar

/-- A token that opens a nesting level, and how many levels are open behind it. -/
structure Opening where
  placed : PlacedToken
  level : Nat

/-- The fault of an opening: that its level is the first one beyond the limit. -/
def Opening.fault? (opening : Opening) : Option ParseError :=
  if opening.level = nestingLimit + 1 then
    some ⟨.nestingTooDeep nestingLimit, opening.placed.position⟩
  else none

theorem Opening.fault?_eq_some_iff {opening : Opening} {error : ParseError} :
    opening.fault? = some error ↔ opening.level = nestingLimit + 1 ∧
      error = ⟨.nestingTooDeep nestingLimit, opening.placed.position⟩ := by
  unfold fault?
  split_ifs with hlevel
  · simp [hlevel, eq_comm]
  · simp [hlevel]

theorem Opening.fault?_eq_none_iff {opening : Opening} :
    opening.fault? = none ↔ opening.level ≠ nestingLimit + 1 := by
  simp [fault?]

/-- The fault of a level is that of the token that opens it. -/
theorem levelFaults_append (token : Token) (position level : Nat) (openings : List Opening) :
    Assembly.levelFaults position level ++ openings.filterMap Opening.fault? =
      (⟨⟨token, position⟩, level + 1⟩ :: openings).filterMap Opening.fault? := by
  by_cases hlevel : level = nestingLimit
  · simp [Assembly.levelFaults, Opening.fault?, hlevel]
  · simp [Assembly.levelFaults, Opening.fault?, hlevel]

namespace Phrase

variable {rule : Rule} {vocabulary : Vocabulary}

/-- The tokens of a phrase that open nesting levels. The phrase begins where `level` levels are
open. -/
def openings {rule : Rule} : Phrase rule → Nat → List Opening
  | sum first others, level => first.openings level ++ others.openings level
  | noTerm, _ => []
  | term _ _ _ next others, level => next.openings level ++ others.openings level
  | product first others, level => first.openings level ++ others.openings level
  | noFactor, _ => []
  | factor _ _ _ next others, level => next.openings level ++ others.openings level
  | unraised base, level => base.openings level
  | raised base position exponent, level =>
    base.openings level ++ ⟨⟨.mark .power, position⟩, level + 1⟩ :: exponent.openings (level + 1)
  | unsigned inner, level => inner.openings level
  | negated _ inner, level => inner.openings level
  | bare inner, level => inner.openings level
  | negative .., _ => []
  | number .., _ => []
  | positive .., _ => []
  | named .., _ => []
  | call _ _ opening arguments _, level =>
    ⟨⟨.mark .openParen, opening⟩, level + 1⟩ :: arguments.openings (level + 1)
  | group opening inner _, level =>
    ⟨⟨.mark .openParen, opening⟩, level + 1⟩ :: inner.openings (level + 1)
  | last argument, level => argument.openings level
  | further argument _ others, level => argument.openings level ++ others.openings level

theorem opensLevel_of_isAdditive {sign : Mark} (h : sign.isAdditive) :
    (Token.mark sign).opensLevel = false := by
  cases sign with
  | plus | minus => rfl
  | _ => cases h

theorem opensLevel_of_isMultiplicative {sign : Mark} (h : sign.isMultiplicative) :
    (Token.mark sign).opensLevel = false := by
  cases sign with
  | times | divide => rfl
  | _ => cases h

/-- The openings are the opening brackets and the `^`, in the order of the tokens. -/
theorem map_placed_openings (phrase : Phrase rule) (level : Nat) :
    (phrase.openings level).map Opening.placed =
      phrase.tokens.filter (·.token.opensLevel) := by
  induction phrase generalizing level with
  | term sign additive _ _ _ ihnext ihothers =>
    simp [openings, tokens, opensLevel_of_isAdditive additive, ihnext, ihothers]
  | factor sign multiplicative _ _ _ ihnext ihothers =>
    simp [openings, tokens, opensLevel_of_isMultiplicative multiplicative, ihnext, ihothers]
  | _ => simp_all [openings, tokens, Token.opensLevel]

/-- A phrase whose calls fit has no faults but levels beyond the limit. -/
theorem faults_of_callsFit (phrase : Phrase rule) (hfits : phrase.CallsFit vocabulary)
    (level : Nat) :
    phrase.faults vocabulary level = (phrase.openings level).filterMap Opening.fault? := by
  induction phrase generalizing level with
  | noTerm | noFactor | negative | number | positive | named => rfl
  | unraised | unsigned | bare | negated | last =>
    rename_i ih
    exact ih hfits level
  | sum _ _ ihfirst ihothers | product _ _ ihfirst ihothers
  | term _ _ _ _ _ ihfirst ihothers | factor _ _ _ _ _ ihfirst ihothers
  | further _ _ _ ihfirst ihothers =>
    rw [faults, openings, List.filterMap_append, ihfirst hfits.1, ihothers hfits.2]
  | raised base position exponent ihbase ihexponent =>
    rw [faults, openings, List.filterMap_append, ihbase hfits.1, ihexponent hfits.2,
      levelFaults_append (.mark .power)]
  | call position name opening arguments closing ih =>
    obtain ⟨harguments, hcount⟩ := hfits
    rw [faults, openings, ih harguments, levelFaults_append (.mark .openParen), callFaults,
      if_pos hcount, List.append_nil]
  | group opening inner closing ih =>
    rw [faults, openings, ih hfits, levelFaults_append (.mark .openParen)]

/-! ### Chains of operators -/

/-- An operator of a flat chain, and its right operand. -/
structure Link where
  sign : Mark
  joins : sign.isAdditive ∨ sign.isMultiplicative
  position : Nat
  operand : Phrase .power

/-- The tokens of a link. -/
def Link.tokens (link : Link) : List PlacedToken :=
  ⟨.mark link.sign, link.position⟩ :: link.operand.tokens

/-- A chain of operators is a sum, which is as deep as the deepest operand. -/
theorem exists_chain (first : Phrase .power) (links : List Link) :
    ∃ phrase : Phrase .sum, phrase.tokens = first.tokens ++ links.flatMap Link.tokens ∧
      (∀ bound, phrase.depth ≤ bound ↔
        first.depth ≤ bound ∧ ∀ link ∈ links, link.operand.depth ≤ bound) ∧
      ∀ vocabulary, phrase.CallsFit vocabulary ↔
        first.CallsFit vocabulary ∧ ∀ link ∈ links, link.operand.CallsFit vocabulary := by
  -- The chain behind an operator is a sum of its own, which the operator opens up at its front.
  induction links generalizing first with
  | nil =>
    exact ⟨.sum (.product first .noFactor) .noTerm, by simp [tokens], by simp [depth],
      by simp [CallsFit]⟩
  | cons link links ih =>
    obtain ⟨sign, joins, position, operand⟩ := link
    obtain ⟨phrase, htokens, hdepth, hfits⟩ := ih operand
    cases phrase with
    | sum front terms =>
      cases front with
      | product next factors =>
        simp only [tokens, depth, CallsFit, List.append_assoc] at htokens hdepth hfits
        rcases joins with hadditive | hmultiplicative
        · refine ⟨.sum (.product first .noFactor)
            (.term sign hadditive position (.product next factors) terms), ?_, ?_, ?_⟩
          · simp [tokens, Link.tokens, htokens]
          · intro bound
            have hbound := hdepth bound
            simp only [depth, List.forall_mem_cons, ← hbound]
            omega
          · intro vocabulary
            simp only [CallsFit, List.forall_mem_cons, ← hfits, and_true]
        · refine ⟨.sum (.product first (.factor sign hmultiplicative position next factors)) terms,
            ?_, ?_, ?_⟩
          · simp [tokens, Link.tokens, htokens]
          · intro bound
            have hbound := hdepth bound
            simp only [depth, List.forall_mem_cons, ← hbound]
            omega
          · intro vocabulary
            simp only [CallsFit, List.forall_mem_cons, ← hfits, and_assoc]

end Phrase

end Grammar

namespace Program

open Grammar

/-- What the nesting limit does to an expression whose calls fit. Within the limit it is a program.
Beyond the limit it fails at the first token in the order of the text that opens a level too many;
all brackets that open and all `^` open a level. A chain of operators within the limit is a program
however long it is. -/
theorem ofTokens_nested (vocabulary : Vocabulary) (textEnd : Nat) :
    (∀ phrase : Phrase .sum, phrase.CallsFit vocabulary →
      (phrase.openings 0).map Opening.placed = phrase.tokens.filter (·.token.opensLevel) ∧
      (phrase.depth ≤ nestingLimit →
        ofTokens vocabulary textEnd phrase.tokens = .ok ⟨phrase.emission⟩) ∧
      (nestingLimit < phrase.depth → ∃ before opening after,
        phrase.openings 0 = before ++ opening :: after ∧
        opening.level = nestingLimit + 1 ∧
        (∀ earlier ∈ before, earlier.level ≠ nestingLimit + 1) ∧
        ofTokens vocabulary textEnd phrase.tokens =
          .error ⟨.nestingTooDeep nestingLimit, opening.placed.position⟩)) ∧
    ∀ (first : Phrase .power) (links : List Phrase.Link),
      first.depth ≤ nestingLimit → first.CallsFit vocabulary →
      (∀ link ∈ links, link.operand.depth ≤ nestingLimit ∧ link.operand.CallsFit vocabulary) →
      ∃ program, ofTokens vocabulary textEnd
        (first.tokens ++ links.flatMap Phrase.Link.tokens) = .ok program := by
  refine ⟨fun phrase hfits ↦ ⟨phrase.map_placed_openings 0, fun hdepth ↦ ?_, fun hdepth ↦ ?_⟩,
    fun first links hdepth hfits hlinks ↦ ?_⟩
  · exact ofTokens_eq_ok_iff.mpr ⟨phrase, rfl, hfits, hdepth, rfl⟩
  · have hfaults : phrase.faults vocabulary 0 ≠ [] := by
      rw [Ne, phrase.faults_eq_nil_iff (Nat.zero_le _)]
      rintro ⟨-, hwithin⟩
      omega
    obtain ⟨fault, others, hfault⟩ := List.exists_cons_of_ne_nil hfaults
    have hresult := ofTokens_tokens vocabulary textEnd phrase
    rw [hfault] at hresult
    rw [phrase.faults_of_callsFit hfits 0, List.filterMap_eq_cons_iff] at hfault
    obtain ⟨before, opening, after, hopenings, hbefore, hopening, -⟩ := hfault
    obtain ⟨hlevel, rfl⟩ := Opening.fault?_eq_some_iff.mp hopening
    exact ⟨before, opening, after, hopenings, hlevel,
      fun earlier hearlier ↦ Opening.fault?_eq_none_iff.mp (hbefore earlier hearlier), hresult⟩
  · obtain ⟨phrase, htokens, hwithin, hcalls⟩ := Phrase.exists_chain first links
    refine ⟨⟨phrase.emission⟩, ofTokens_eq_ok_iff.mpr ⟨phrase, htokens, ?_, ?_, rfl⟩⟩
    · exact (hcalls vocabulary).mpr ⟨hfits, fun link hlink ↦ (hlinks link hlink).2⟩
    · exact (hwithin nestingLimit).mpr ⟨hdepth, fun link hlink ↦ (hlinks link hlink).1⟩

end Program

namespace Grammar.Phrase

/-- A number in so many brackets, of which the first one stands at a position. -/
def enclosed : (levels position : Nat) → Phrase .sum
  | 0, position => ofOperand (.unsigned (.number position 1))
  | levels + 1, position =>
    ofOperand (.unsigned
      (.group position (enclosed levels (position + 1)) (position + 2 * levels + 2)))

theorem depth_enclosed (levels position : Nat) : (enclosed levels position).depth = levels := by
  induction levels generalizing position with
  | zero => rfl
  | succ levels ih => simp [enclosed, depth, ih]

theorem callsFit_enclosed (levels position : Nat) (vocabulary : Vocabulary) :
    (enclosed levels position).CallsFit vocabulary := by
  induction levels generalizing position with
  | zero => simp [enclosed, CallsFit]
  | succ levels ih => simp [enclosed, CallsFit, ih]

/-- The brackets stand one after the other. -/
theorem level_of_mem_openings_enclosed {levels position level : Nat} {opening : Opening}
    (h : opening ∈ (enclosed levels position).openings level) :
    opening.level + position = opening.placed.position + level + 1 := by
  induction levels generalizing position level with
  | zero => simp [enclosed, ofOperand, openings] at h
  | succ levels ih =>
    simp only [enclosed, ofOperand, openings, List.append_nil, List.mem_cons] at h
    rcases h with rfl | h
    · dsimp only
      omega
    · have hinner := ih h
      omega

end Grammar.Phrase

namespace Program

open Grammar

/-- A bracket too many is found where it opens. A sum of a thousand and one groups of as many
brackets as there may be is a program. -/
theorem ofTokens_nested_enclosed :
    (∃ program, ofTokens .standard 513 (Phrase.enclosed 256 0).tokens = .ok program) ∧
    ofTokens .standard 515 (Phrase.enclosed 257 0).tokens =
      .error ⟨.nestingTooDeep 256, 256⟩ ∧
    ∃ program, ofTokens .standard 0 (Phrase.tokens (.unraised (.unsigned (.group 0
      (Phrase.enclosed 255 1) 512))) ++ (List.replicate 1000 ⟨.plus, .inl rfl, 513,
        .unraised (.unsigned (.group 514 (Phrase.enclosed 255 515) 1026))⟩).flatMap
          Phrase.Link.tokens) = .ok program := by
  have hwithin := ((ofTokens_nested .standard 513).1 (Phrase.enclosed 256 0)
    (Phrase.callsFit_enclosed 256 0 .standard)).2.1
  obtain ⟨before, opening, after, hopenings, hlevel, -, herror⟩ :=
    ((ofTokens_nested .standard 515).1 (Phrase.enclosed 257 0)
      (Phrase.callsFit_enclosed 257 0 .standard)).2.2 (by rw [Phrase.depth_enclosed]; decide)
  have hgroup (position closing : Nat) :
      (Phrase.unraised (.unsigned (.group position (Phrase.enclosed 255 (position + 1))
        closing))).depth ≤ nestingLimit := by
    rw [Phrase.depth, Phrase.depth, Phrase.depth, Phrase.depth_enclosed]
    decide
  refine ⟨⟨_, hwithin (Nat.le_of_eq (Phrase.depth_enclosed 256 0))⟩, ?_, ?_⟩
  · have hmem : opening ∈ (Phrase.enclosed 257 0).openings 0 := by
      rw [hopenings]
      simp
    have hposition : opening.placed.position = 256 := by
      have hplace := Phrase.level_of_mem_openings_enclosed hmem
      rw [hlevel, nestingLimit] at hplace
      omega
    rw [herror, hposition]
    rfl
  · refine (ofTokens_nested .standard 0).2 _ _ (hgroup 0 512)
      (Phrase.callsFit_enclosed 255 1 .standard) fun link hlink ↦ ?_
    rw [List.eq_of_mem_replicate hlink]
    exact ⟨hgroup 514 1026, Phrase.callsFit_enclosed 255 515 .standard⟩

end Program

end BeamCalc
