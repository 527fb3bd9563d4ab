import BeamCalc.Proofs.Grammar.Trailing

/-!
# Errors that no further token mends

A reading that fails at a token that is there fails in the same way whatever follows the tokens. The
rules look at most one token ahead, so that token decides. There is one exception: a sign where an
operand has to begin belongs to a number that touches it, and if the sign is the last token, the
number may still follow (`FailsAtLastSign`).

`failsForGood_readSum` and its companions say this of the rules. They are put together from
`FailsForGood.bind` for what is read one after the other: the first reading stops before the same
tokens again when more follow (`ReadsAgain`), unless it has used up all of them, and then the second
reading has no token to fail at. `Program.ofTokens_append_of_isFinal` is the statement for whole
expressions.
-/

set_option autoImplicit false
set_option relaxedAutoImplicit false

namespace BeamCalc

/-- Whether a fault of the grammar is found at a token and not at the end. -/
def ParseFault.isFinal : ParseFault → Bool
  | unexpectedToken _ | trailingTokens _ | argumentCount .. | nestingTooDeep _ => true
  | emptyInput | unexpectedCharacter _ | unexpectedEnd | unclosedParen => false

/-! ### Assemblies for texts that end elsewhere -/

namespace Assembly

variable {action next : Assembly → Except ParseError Assembly}

/-- The same assembly for tokens of a text that ends elsewhere. -/
def endingAt (assembly : Assembly) (textEnd : Nat) : Assembly :=
  { assembly with textEnd }

/-- An action that makes nothing of where the text ends. -/
def IgnoresEnd (action : Assembly → Except ParseError Assembly) : Prop :=
  ∀ (assembly : Assembly) (textEnd : Nat),
    action (assembly.endingAt textEnd) = (action assembly).map (·.endingAt textEnd)

namespace IgnoresEnd

theorem done : IgnoresEnd .ok :=
  fun _ _ ↦ rfl

theorem emit (instruction : Instruction) :
    IgnoresEnd fun assembly ↦ .ok (assembly.emit instruction) :=
  fun _ _ ↦ rfl

theorem descend (position : Nat) : IgnoresEnd (·.descend position) := by
  intro assembly textEnd
  change Assembly.descend _ position = Except.map _ (assembly.descend position)
  by_cases hlimit : nestingLimit ≤ assembly.depth
  · rw [Assembly.descend.eq_def assembly, if_pos hlimit]
    exact if_pos hlimit
  · rw [Assembly.descend.eq_def assembly, if_neg hlimit]
    exact if_neg hlimit

theorem emitCall (name : String) (position count : Nat) :
    IgnoresEnd (Grammar.emitCall · name position count) := by
  intro assembly textEnd
  change Grammar.emitCall _ name position count =
    Except.map _ (Grammar.emitCall assembly name position count)
  by_cases hcount : count = assembly.vocabulary.arity name
  · rw [Grammar.emitCall.eq_def assembly, if_pos hcount]
    exact if_pos hcount
  · rw [Grammar.emitCall.eq_def assembly, if_neg hcount]
    exact if_neg hcount

theorem andThen (haction : IgnoresEnd action) (hnext : IgnoresEnd next) :
    IgnoresEnd fun assembly ↦ action assembly >>= next := by
  intro assembly textEnd
  dsimp only
  rw [haction assembly textEnd]
  cases action assembly with
  | error error => rfl
  | ok middle => exact hnext middle textEnd

theorem nested (haction : IgnoresEnd action) (position : Nat) :
    IgnoresEnd (Assembly.nested position action) :=
  (descend position).andThen (haction.andThen fun _ _ ↦ rfl)

end IgnoresEnd

end Assembly

namespace Grammar

open Assembly

/-- What a phrase emits does not depend on where the text ends. -/
theorem Phrase.ignoresEnd_assemble {rule : Rule} (phrase : Phrase rule) :
    IgnoresEnd phrase.assemble := by
  induction phrase with
  | sum first others ihfirst ihothers => exact ihfirst.andThen ihothers
  | noTerm => exact .done
  | term sign additive position next others ihnext ihothers =>
    exact ihnext.andThen ((IgnoresEnd.emit _).andThen ihothers)
  | product first others ihfirst ihothers => exact ihfirst.andThen ihothers
  | noFactor => exact .done
  | factor sign multiplicative position next others ihnext ihothers =>
    exact ihnext.andThen ((IgnoresEnd.emit _).andThen ihothers)
  | unraised base ih => exact ih
  | raised base position exponent ihbase ihexponent =>
    exact ihbase.andThen ((ihexponent.nested position).andThen (.emit _))
  | unsigned inner ih => exact ih
  | negated position inner ih => exact ih.andThen (.emit .negate)
  | bare inner ih => exact ih
  | negative position value => exact .emit _
  | number position value => exact .emit _
  | positive position value => exact .emit _
  | named position name => exact .emit _
  | call position name opening arguments closing ih =>
    exact (ih.nested opening).andThen (.emitCall name position arguments.count)
  | group opening inner closing ih => exact ih.nested opening
  | last argument ih => exact ih
  | further argument comma others ihargument ihothers => exact ihargument.andThen ihothers

/-! ### Reading again with other tokens behind -/

/-- What a reading that stopped before some tokens makes of the tokens before them when others
follow that begin with the same token. -/
def ReadsAgain (read : Assembly → List PlacedToken → Reading.Plain) : Prop :=
  ∀ ⦃assembly extended : Assembly⦄ ⦃tokens rest : List PlacedToken⦄,
    read assembly tokens = .ok (extended, rest) →
      ∃ before, before ++ rest = tokens ∧ ∀ (textEnd : Nat) (rest' : List PlacedToken),
        rest'.head? = rest.head? → read (assembly.endingAt textEnd) (before ++ rest') =
          .ok (extended.endingAt textEnd, rest')

/-- Where a phrase ends depends on one token. -/
theorem Phrase.EndsBefore.of_head? {rule : Rule} {phrase : Phrase rule}
    {rest rest' : List PlacedToken} (h : phrase.EndsBefore rest)
    (hhead : rest'.head? = rest.head?) : phrase.EndsBefore rest' := by
  rintro sign position more rfl
  obtain ⟨others, hothers⟩ := List.head?_eq_some_iff.mp hhead.symm
  exact h sign position others hothers

/-- A reading of phrases stops at the same place again. -/
theorem readsAgain_of_phrases {rule : Rule} {read : Assembly → List PlacedToken → Reading.Plain}
    (hread : ∀ {assembly extended : Assembly} {tokens rest : List PlacedToken},
      read assembly tokens = .ok (extended, rest) →
        ∃ phrase : Phrase rule, phrase.IsRead assembly tokens extended rest)
    (htokens : ∀ (phrase : Phrase rule) (assembly : Assembly) {rest : List PlacedToken},
      phrase.EndsBefore rest → read assembly (phrase.tokens ++ rest) =
        (phrase.assemble assembly).map fun assembly ↦ (assembly, rest)) :
    ReadsAgain read := by
  intro assembly extended tokens rest h
  obtain ⟨phrase, rfl, hassembles, hends⟩ := hread h
  refine ⟨phrase.tokens, rfl, fun textEnd rest' hhead ↦ ?_⟩
  rw [htokens phrase _ (hends.of_head? hhead), phrase.ignoresEnd_assemble, hassembles]
  rfl

theorem readsAgain_readSum : ReadsAgain readSum :=
  readsAgain_of_phrases isRead_of_readSum readSum_tokens

theorem readsAgain_readProduct : ReadsAgain readProduct :=
  readsAgain_of_phrases isRead_of_readProduct readProduct_tokens

theorem readsAgain_readPower : ReadsAgain readPower :=
  readsAgain_of_phrases isRead_of_readPower readPower_tokens

theorem readsAgain_readOperand : ReadsAgain readOperand :=
  readsAgain_of_phrases isRead_of_readOperand readOperand_tokens

/-- The arguments of a call end with its bracket, so whatever follows that may be another token. -/
theorem readArguments_again {assembly extended : Assembly} {tokens rest : List PlacedToken}
    {opening count found : Nat}
    (h : readArguments assembly tokens opening count = .ok (found, extended, rest))
    (textEnd : Nat) (more : List PlacedToken) :
    readArguments (assembly.endingAt textEnd) (tokens ++ more) opening count =
      .ok (found, extended.endingAt textEnd, rest ++ more) := by
  obtain ⟨phrase, closing, rfl, hassembles, rfl⟩ := isRead_of_readArguments h
  rw [List.append_assoc, List.cons_append, readArguments_tokens, phrase.ignoresEnd_assemble,
    hassembles]
  rfl

/-! ### Readings that fail for good -/

/-- Whether a reading fails at a sign that is the last token, and at which an operand has to begin:
without the sign the tokens end too early. -/
def FailsAtLastSign {result : Type}
    (read : Assembly → List PlacedToken → Except ParseError result) (assembly : Assembly)
    (tokens : List PlacedToken) (error : ParseError) : Prop :=
  ∃ before sign position, tokens = before ++ [⟨.mark sign, position⟩] ∧ sign.isAdditive ∧
    error = ⟨.unexpectedToken (Token.mark sign).text, position⟩ ∧
      ∀ textEnd, read (assembly.endingAt textEnd) before = .error ⟨.unexpectedEnd, textEnd⟩

/-- Whether an error of a reading comes whatever else follows the tokens, or from a sign that is the
last token. -/
def IsForGood {result : Type} (read : Assembly → List PlacedToken → Except ParseError result)
    (assembly : Assembly) (tokens : List PlacedToken) (error : ParseError) : Prop :=
  (∀ textEnd more, read (assembly.endingAt textEnd) (tokens ++ more) = .error error) ∨
    FailsAtLastSign read assembly tokens error

/-- Whether every error of a reading that is found at a token is for good. -/
def FailsForGood {result : Type}
    (read : Assembly → List PlacedToken → Except ParseError result) (assembly : Assembly)
    (tokens : List PlacedToken) : Prop :=
  ∀ ⦃error⦄, read assembly tokens = .error error → error.fault.isFinal →
    IsForGood read assembly tokens error

/-- What fails for good does so where more would be done behind it. -/
theorem IsForGood.andThen {result other : Type}
    {read : Assembly → List PlacedToken → Except ParseError result} {assembly : Assembly}
    {tokens : List PlacedToken} {error : ParseError} (h : IsForGood read assembly tokens error)
    (next : result → Except ParseError other) :
    IsForGood (fun assembly tokens ↦ read assembly tokens >>= next) assembly tokens error := by
  rcases h with hgood | ⟨before, sign, position, htokens, hsign, herror, hbefore⟩
  · refine .inl fun textEnd more ↦ ?_
    dsimp only
    rw [hgood textEnd more]
    rfl
  · refine .inr ⟨before, sign, position, htokens, hsign, herror, fun textEnd ↦ ?_⟩
    dsimp only
    rw [hbefore textEnd]
    rfl

namespace FailsForGood

variable {result : Type} {read inner : Assembly → List PlacedToken → Except ParseError result}
  {assembly : Assembly} {tokens : List PlacedToken}

/-- Where nothing fails. -/
theorem of_ok {value : result} (h : read assembly tokens = .ok value) :
    FailsForGood read assembly tokens := by
  intro error hfails
  rw [h] at hfails
  cases hfails

/-- Where no token is to blame. -/
theorem of_not_isFinal (error : ParseError) (h : read assembly tokens = .error error)
    (hfault : error.fault.isFinal = false) : FailsForGood read assembly tokens := by
  intro error' hfails hfinal
  rw [h] at hfails
  cases hfails
  rw [hfault] at hfinal
  cases hfinal

/-- Where the token that is to blame is read whatever follows. -/
theorem of_error (error : ParseError)
    (h : ∀ textEnd more, read (assembly.endingAt textEnd) (tokens ++ more) = .error error) :
    FailsForGood read assembly tokens := by
  intro error' hfails
  have hhere := h assembly.textEnd []
  rw [List.append_nil] at hhere
  obtain rfl : error = error' := Except.error.inj (hhere.symm.trans hfails)
  exact fun _ ↦ .inl h

/-- A reading that begins with some tokens whatever follows them. -/
theorem behind (front : List PlacedToken)
    (heq : ∀ assembly tokens, read assembly (front ++ tokens) = inner assembly tokens)
    (h : FailsForGood inner assembly tokens) : FailsForGood read assembly (front ++ tokens) := by
  intro error hfails hfinal
  rw [heq] at hfails
  rcases h hfails hfinal with hgood | ⟨before, sign, position, rfl, hsign, herror, hbefore⟩
  · refine .inl fun textEnd more ↦ ?_
    rw [List.append_assoc, heq]
    exact hgood textEnd more
  · refine .inr ⟨front ++ before, sign, position, ?_, hsign, herror, fun textEnd ↦ ?_⟩
    · rw [List.append_assoc]
    · rw [heq]
      exact hbefore textEnd

/-- The same reading in other words. -/
theorem congr (heq : ∀ assembly tokens, read assembly tokens = inner assembly tokens)
    (h : FailsForGood inner assembly tokens) : FailsForGood read assembly tokens :=
  h.behind [] heq

/-- The same reading in other words, if the tokens begin with a certain one. -/
theorem congr_head (heq : ∀ assembly tokens', tokens'.head? = tokens.head? →
      read assembly tokens' = inner assembly tokens')
    (hnil : ∀ assembly, read assembly [] = inner assembly []) (hsome : tokens ≠ [])
    (h : FailsForGood inner assembly tokens) : FailsForGood read assembly tokens := by
  intro error hfails hfinal
  rw [heq assembly tokens rfl] at hfails
  rcases h hfails hfinal with hgood | ⟨before, sign, position, rfl, hsign, herror, hbefore⟩
  · refine .inl fun textEnd more ↦ ?_
    rw [heq _ _ (List.head?_append_of_ne_nil tokens hsome)]
    exact hgood textEnd more
  · refine .inr ⟨before, sign, position, rfl, hsign, herror, fun textEnd ↦ ?_⟩
    cases before with
    | nil => exact (hnil _).trans (hbefore textEnd)
    | cons first others => exact (heq _ (first :: others) rfl).trans (hbefore textEnd)

/-- A reading after which nothing can fail. -/
theorem andDo {other : Type} (h : FailsForGood read assembly tokens) (next : result → other) :
    FailsForGood (fun assembly tokens ↦ read assembly tokens >>= fun value ↦ .ok (next value))
      assembly tokens := by
  intro error hfails hfinal
  rcases bind_eq_error_iff.mp hfails with hread | ⟨value, -, hnever⟩
  · exact (h hread hfinal).andThen _
  · cases hnever

/-- A reading within a nesting level. -/
theorem deeper (position : Nat)
    (h : ∀ deeper, assembly.descend position = .ok deeper → FailsForGood read deeper tokens) :
    FailsForGood (fun assembly tokens ↦ assembly.descend position >>= (read · tokens))
      assembly tokens := by
  have hend (textEnd : Nat) : (assembly.endingAt textEnd).descend position =
      (assembly.descend position).map (·.endingAt textEnd) :=
    IgnoresEnd.descend position assembly textEnd
  cases hdescend : assembly.descend position with
  | error error =>
    refine of_error error fun textEnd more ↦ ?_
    rw [hend textEnd, hdescend]
    rfl
  | ok deeper =>
    intro error hfails hfinal
    change (assembly.descend position >>= (read · tokens)) = _ at hfails
    rw [hdescend] at hfails
    rcases h deeper hdescend hfails hfinal with
      hgood | ⟨before, sign, position', htokens, hsign, herror, hbefore⟩
    · refine .inl fun textEnd more ↦ ?_
      dsimp only
      rw [hend textEnd, hdescend]
      exact hgood textEnd more
    · refine .inr ⟨before, sign, position', htokens, hsign, herror, fun textEnd ↦ ?_⟩
      dsimp only
      rw [hend textEnd, hdescend]
      exact hbefore textEnd

/-- Two readings one after the other. The second one must not fail for want of an operand where no
token is left, because there it is not the one that goes on. -/
theorem bind {first : Assembly → List PlacedToken → Reading.Plain}
    (next : Assembly → List PlacedToken → Except ParseError result)
    (hagain : ReadsAgain first) (hfirst : FailsForGood first assembly tokens)
    (hend : ∀ extended error, next extended [] = .error error → error.fault = .unclosedParen)
    (hnext : ∀ extended rest, first assembly tokens = .ok (extended, rest) →
      FailsForGood next extended rest) :
    FailsForGood (fun assembly tokens ↦
      first assembly tokens >>= fun (extended, rest) ↦ next extended rest) assembly tokens := by
  intro error hfails hfinal
  rcases bind_eq_error_iff.mp hfails with hfailsFirst | ⟨⟨extended, rest⟩, hok, hfailsNext⟩
  · exact (hfirst hfailsFirst hfinal).andThen _
  · obtain ⟨read, rfl, hreads⟩ := hagain hok
    -- The second reading fails at a token, so the first one has left one.
    have hrest : rest ≠ [] := by
      rintro rfl
      have hfault : error.fault = .unclosedParen := hend extended error hfailsNext
      rw [hfault] at hfinal
      cases hfinal
    rcases hnext extended rest hok hfailsNext hfinal with
      hgood | ⟨before, sign, position, rfl, hsign, herror, hbefore⟩
    · refine .inl fun textEnd more ↦ ?_
      dsimp only
      rw [List.append_assoc,
        hreads textEnd (rest ++ more) (List.head?_append_of_ne_nil rest hrest)]
      exact hgood textEnd more
    · have hsome : before ≠ [] := by
        rintro rfl
        cases hend _ _ (hbefore 0)
      refine .inr ⟨read ++ before, sign, position, (List.append_assoc ..).symm, hsign, herror,
        fun textEnd ↦ ?_⟩
      dsimp only
      rw [hreads textEnd before (List.head?_append_of_ne_nil before hsome).symm]
      exact hbefore textEnd

end FailsForGood

/-- A call, of which the number of arguments is checked behind its bracket. -/
theorem FailsForGood.call {assembly : Assembly} {tokens : List PlacedToken} (name : String)
    (position opening count : Nat)
    (h : FailsForGood (readArguments · · opening count) assembly tokens) :
    FailsForGood (fun assembly tokens ↦ do
      let (count, deeper, rest) ← readArguments assembly tokens opening count
      let assembly ← emitCall deeper.ascend name position count
      .ok (assembly, rest)) assembly tokens := by
  intro error hfails hfinal
  rcases bind_eq_error_iff.mp hfails with hfailsInside | ⟨⟨found, deeper, rest⟩, hok, hfailsCall⟩
  · exact (h hfailsInside hfinal).andThen _
  · rcases bind_eq_error_iff.mp hfailsCall with hfailsCall | ⟨_, -, hnever⟩
    · refine .inl fun textEnd more ↦ ?_
      have hcall := IgnoresEnd.emitCall name position found deeper.ascend textEnd
      dsimp only at hfailsCall hcall ⊢
      rw [readArguments_again hok textEnd more]
      change (emitCall (deeper.ascend.endingAt textEnd) name position found >>= _) = _
      rw [hcall, hfailsCall]
      rfl
    · cases hnever

/-- A sign where an operand has to begin is followed by the number that it belongs to, or by
nothing yet. -/
theorem failsForGood_sign {sign : Mark} (hsign : sign.isAdditive) (position : Nat)
    (assembly : Assembly) (tokens : List PlacedToken) :
    FailsForGood readPrimary assembly (⟨.mark sign, position⟩ :: tokens) := by
  intro error hfails hfinal
  have hsigned (textEnd : Nat) (more : List PlacedToken) :
      readPrimary (assembly.endingAt textEnd) (⟨.mark sign, position⟩ :: tokens ++ more) =
        readSigned (assembly.endingAt textEnd) sign position (tokens ++ more) :=
    readPrimary_sign _ hsign position (tokens ++ more)
  rw [readPrimary_sign assembly hsign] at hfails
  cases tokens with
  | nil =>
    cases hfails
    exact .inr ⟨[], sign, position, rfl, hsign, rfl, fun textEnd ↦ readPrimary_nil _⟩
  | cons next others =>
    refine .inl fun textEnd more ↦ (hsigned textEnd more).trans ?_
    obtain ⟨token, start⟩ := next
    cases token with
    | number value =>
      by_cases htouches : start = position + 1
      · rw [readSigned, if_pos htouches] at hfails
        cases hfails
      · rw [readSigned, if_neg htouches] at hfails
        exact (if_neg htouches).trans hfails
    | name | mark => exact hfails

/-- A bracket that is missing may still follow. -/
theorem failsForGood_closing (opening : Nat) (assembly : Assembly) (tokens : List PlacedToken) :
    FailsForGood (fun deeper left ↦ readClosing opening left >>= fun rest ↦
      .ok (deeper.ascend, rest)) assembly tokens := by
  intro error hfails hfinal
  rcases bind_eq_error_iff.mp hfails with hfails | ⟨rest, -, hnever⟩
  · unfold readClosing at hfails
    split at hfails
    · cases hfails
    · cases hfails
      cases hfinal
  · cases hnever

mutual

/-- A sum that fails at a token does so whatever follows, unless that is a sign at the end. -/
theorem failsForGood_readSum (assembly : Assembly) (tokens : List PlacedToken) :
    FailsForGood readSum assembly tokens := by
  refine .congr readSum_eq (.bind readFurtherTerms readsAgain_readProduct
    (failsForGood_readProduct assembly tokens)
    (fun extended error hnone ↦ ?_)
    fun extended rest hfirst ↦ ?_)
  · rw [readFurtherTerms_end extended (by simp)] at hnone
    cases hnone
  · have hshorter := length_lt_of_readProduct hfirst
    exact failsForGood_readFurtherTerms extended rest
termination_by 7 * tokens.length + 5

theorem failsForGood_readFurtherTerms (assembly : Assembly) (tokens : List PlacedToken) :
    FailsForGood readFurtherTerms assembly tokens := by
  by_cases hsign : ∃ sign position more, tokens = ⟨.mark sign, position⟩ :: more ∧ sign.isAdditive
  · obtain ⟨sign, position, more, htokens, additive⟩ := hsign
    have hmore : more.length < tokens.length := by simp [htokens]
    rw [htokens]
    refine .behind [_]
      (fun assembly tokens ↦ readFurtherTerms_sign assembly additive position tokens)
      (.bind (fun extended rest ↦ readFurtherTerms (extended.emit (.operator sign.symbol)) rest)
        readsAgain_readProduct (failsForGood_readProduct assembly more)
          (fun extended error hnone ↦ ?_)
          fun extended rest hnext ↦ ?_)
    · rw [readFurtherTerms_end _ (by simp)] at hnone
      cases hnone
    · have hshorter := length_lt_of_readProduct hnext
      exact failsForGood_readFurtherTerms _ rest
  · exact .of_ok (readFurtherTerms_end assembly fun sign position more htokens additive ↦
      hsign ⟨sign, position, more, htokens, additive⟩)
termination_by 7 * tokens.length + 4

theorem failsForGood_readProduct (assembly : Assembly) (tokens : List PlacedToken) :
    FailsForGood readProduct assembly tokens := by
  refine .congr readProduct_eq (.bind readFurtherFactors readsAgain_readPower
    (failsForGood_readPower assembly tokens)
    (fun extended error hnone ↦ ?_)
    fun extended rest hfirst ↦ ?_)
  · rw [readFurtherFactors_end extended (by simp)] at hnone
    cases hnone
  · have hshorter := length_lt_of_readPower hfirst
    exact failsForGood_readFurtherFactors extended rest
termination_by 7 * tokens.length + 3

theorem failsForGood_readFurtherFactors (assembly : Assembly) (tokens : List PlacedToken) :
    FailsForGood readFurtherFactors assembly tokens := by
  by_cases hsign : ∃ sign position more,
      tokens = ⟨.mark sign, position⟩ :: more ∧ sign.isMultiplicative
  · obtain ⟨sign, position, more, htokens, multiplicative⟩ := hsign
    have hmore : more.length < tokens.length := by simp [htokens]
    rw [htokens]
    refine .behind [_]
      (fun assembly tokens ↦ readFurtherFactors_sign assembly multiplicative position tokens)
      (.bind (fun extended rest ↦ readFurtherFactors (extended.emit (.operator sign.symbol)) rest)
        readsAgain_readPower (failsForGood_readPower assembly more)
          (fun extended error hnone ↦ ?_)
          fun extended rest hnext ↦ ?_)
    · rw [readFurtherFactors_end _ (by simp)] at hnone
      cases hnone
    · have hshorter := length_lt_of_readPower hnext
      exact failsForGood_readFurtherFactors _ rest
  · exact .of_ok (readFurtherFactors_end assembly fun sign position more htokens multiplicative ↦
      hsign ⟨sign, position, more, htokens, multiplicative⟩)
termination_by 7 * tokens.length + 2

theorem failsForGood_readPower (assembly : Assembly) (tokens : List PlacedToken) :
    FailsForGood readPower assembly tokens := by
  refine .congr readPower_eq
    (.bind readExponent readsAgain_readOperand (failsForGood_readOperand assembly tokens)
      (fun extended error hnone ↦ ?_) fun extended rest hbase ↦ ?_)
  · rw [readExponent_end extended (by simp)] at hnone
    cases hnone
  · have hshorter := length_lt_of_readOperand hbase
    exact failsForGood_readExponent extended rest
termination_by 7 * tokens.length + 2

theorem failsForGood_readExponent (assembly : Assembly) (tokens : List PlacedToken) :
    FailsForGood readExponent assembly tokens := by
  by_cases hpower : ∃ position more, tokens = ⟨.mark .power, position⟩ :: more
  · obtain ⟨position, more, htokens⟩ := hpower
    have hmore : more.length < tokens.length := by simp [htokens]
    rw [htokens]
    refine .behind [_] (fun _ _ ↦ rfl) (.deeper position fun deeper _ ↦ ?_)
    exact (failsForGood_readPower deeper more).andDo
      fun (deeper, rest) ↦ (deeper.ascend.emit (.operator Mark.power.symbol), rest)
  · exact .of_ok (readExponent_end assembly fun position more htokens ↦
      hpower ⟨position, more, htokens⟩)
termination_by 7 * tokens.length + 2

theorem failsForGood_readOperand (assembly : Assembly) (tokens : List PlacedToken) :
    FailsForGood readOperand assembly tokens := by
  by_cases hminus : ∃ position more, tokens = ⟨.mark .minus, position⟩ :: more
  · obtain ⟨position, more, htokens⟩ := hminus
    have hmore : more.length < tokens.length := by simp [htokens]
    rw [htokens]
    exact .behind [_] (fun assembly tokens ↦ readOperand_minus assembly position tokens)
      ((failsForGood_readPrimary assembly more).andDo
        fun (assembly, rest) ↦ (assembly.emit .negate, rest))
  · have hunsigned : ∀ position more, tokens ≠ ⟨.mark .minus, position⟩ :: more :=
      fun position more htokens ↦ hminus ⟨position, more, htokens⟩
    have hnil (assembly : Assembly) : readOperand assembly [] = readPrimary assembly [] :=
      readOperand_unsigned assembly (by simp)
    by_cases hsome : tokens = []
    · rw [hsome]
      exact .of_not_isFinal _ ((hnil assembly).trans (readPrimary_nil assembly)) rfl
    · refine .congr_head (fun assembly tokens' hhead ↦ ?_) hnil hsome
        (failsForGood_readPrimary assembly tokens)
      refine readOperand_unsigned assembly fun position more htokens ↦ ?_
      rw [htokens] at hhead
      obtain ⟨others, hothers⟩ := List.head?_eq_some_iff.mp hhead.symm
      exact hunsigned position others hothers
termination_by 7 * tokens.length + 1

theorem failsForGood_readPrimary (assembly : Assembly) (tokens : List PlacedToken) :
    FailsForGood readPrimary assembly tokens := by
  match tokens with
  | [] => exact .of_not_isFinal _ (readPrimary_nil assembly) rfl
  | ⟨.number value, position⟩ :: more =>
    exact .of_ok (readPrimary_number assembly value position more)
  | ⟨.name name, position⟩ :: more =>
    by_cases hcall : ∃ opening inside, more = ⟨.mark .openParen, opening⟩ :: inside
    · obtain ⟨opening, inside, rfl⟩ := hcall
      refine .behind [_, _]
        (fun assembly tokens ↦ readPrimary_call assembly name position opening tokens)
        (.deeper opening fun deeper _ ↦ ?_)
      exact (failsForGood_readArguments deeper inside opening 1).call name position opening 1
    · exact .of_ok (readPrimary_name assembly name position fun opening inside hmore ↦
        hcall ⟨opening, inside, hmore⟩)
  | ⟨.mark sign, position⟩ :: more =>
    by_cases hsign : sign.isAdditive
    · exact failsForGood_sign hsign position assembly more
    · by_cases hopen : sign = .openParen
      · obtain rfl := hopen
        refine .behind [_] (fun assembly tokens ↦ readPrimary_group assembly position tokens)
          (.deeper position fun deeper _ ↦ .bind
            (fun deeper left ↦ readClosing position left >>= fun rest ↦ .ok (deeper.ascend, rest))
            readsAgain_readSum (failsForGood_readSum deeper more) (fun extended error hnone ↦ ?_)
              fun extended rest hinner ↦ ?_)
        · cases hnone
          rfl
        · exact failsForGood_closing position extended rest
      · exact .of_error _ fun textEnd more ↦
          readPrimary_mark _ (by simpa using hsign) hopen position _
termination_by 7 * tokens.length + 0

theorem failsForGood_readArguments (assembly : Assembly) (tokens : List PlacedToken)
    (opening count : Nat) : FailsForGood (readArguments · · opening count) assembly tokens := by
  refine .congr (fun assembly tokens ↦ readArguments_eq assembly tokens opening count)
    (.bind (readFurtherArguments · opening count ·) readsAgain_readSum
      (failsForGood_readSum assembly tokens)
      (fun extended error hnone ↦ ?_)
      fun extended rest hargument ↦ ?_)
  · cases hnone
    rfl
  · have hshorter := length_lt_of_readSum hargument
    by_cases hcomma : ∃ comma more, rest = ⟨.mark .comma, comma⟩ :: more
    · obtain ⟨comma, more, rfl⟩ := hcomma
      have hmore : more.length < tokens.length := Nat.lt_of_succ_lt hshorter
      exact .behind [_] (fun _ _ ↦ rfl)
        (failsForGood_readArguments extended more opening (count + 1))
    · by_cases hclosing : ∃ closing more, rest = ⟨.mark .closeParen, closing⟩ :: more
      · obtain ⟨closing, more, rfl⟩ := hclosing
        exact .of_ok rfl
      · refine .of_not_isFinal ⟨.unclosedParen, opening⟩ ?_ rfl
        unfold readFurtherArguments
        split
        · exact absurd ⟨_, _, rfl⟩ hcomma
        · exact absurd ⟨_, _, rfl⟩ hclosing
        · rfl
termination_by 7 * tokens.length + 6

end

end Grammar

namespace Program

open Grammar

variable {vocabulary : Vocabulary} {textEnd : Nat} {tokens : List PlacedToken} {error : ParseError}

/-- Whether an operand has to begin behind some tokens: there are none, or they end too early. -/
def WantsOperand (vocabulary : Vocabulary) (tokens : List PlacedToken) : Prop :=
  tokens = [] ∨ ∀ textEnd, ofTokens vocabulary textEnd tokens = .error ⟨.unexpectedEnd, textEnd⟩

/-- Whether an error is that of a sign which is the last token and stands where an operand has to
begin. -/
def IsAtLastSign (vocabulary : Vocabulary) (tokens : List PlacedToken) (error : ParseError) :
    Prop :=
  ∃ before sign position, tokens = before ++ [⟨.mark sign, position⟩] ∧ sign.isAdditive ∧
    WantsOperand vocabulary before ∧ error = ⟨.unexpectedToken (Token.mark sign).text, position⟩

/-- An error of the rules lies at a last sign if the reading of a sum fails there. -/
theorem isAtLastSign_of_readSum
    (h : FailsAtLastSign readSum { vocabulary, textEnd } tokens error) :
    IsAtLastSign vocabulary tokens error := by
  obtain ⟨before, sign, position, htokens, hsign, herror, hbefore⟩ := h
  refine ⟨before, sign, position, htokens, hsign, ?_, herror⟩
  by_cases hempty : before = []
  · exact .inl hempty
  · refine .inr fun textEnd ↦ ?_
    rw [ofTokens_eq vocabulary textEnd hempty]
    exact bind_eq_error_iff.mpr (.inl (hbefore textEnd))

/-- A token that is too much is so whatever follows it. -/
theorem ofTokens_append_of_trailing {assembly : Assembly} {placed : PlacedToken}
    {rest : List PlacedToken}
    (h : readSum { vocabulary, textEnd } tokens = .ok (assembly, placed :: rest))
    (textEnd' : Nat) (more : List PlacedToken) :
    ofTokens vocabulary textEnd' (tokens ++ more) =
      .error ⟨.trailingTokens placed.token.text, placed.position⟩ := by
  obtain ⟨before, rfl, hagain⟩ := readsAgain_readSum h
  have hlonger : readSum { vocabulary, textEnd := textEnd' }
      (before ++ placed :: (rest ++ more)) =
        .ok (assembly.endingAt textEnd', placed :: (rest ++ more)) :=
    hagain textEnd' (placed :: (rest ++ more)) rfl
  rw [List.append_assoc]
  exact ofTokens_of_readSum hlonger

/-- Tokens that fail at one of them fail with the same error whatever follows and wherever the text
then ends, unless they fail at a sign that is the last token. -/
theorem ofTokens_append_of_isFinal (h : ofTokens vocabulary textEnd tokens = .error error)
    (hfinal : error.fault.isFinal) (hsign : ¬IsAtLastSign vocabulary tokens error)
    (textEnd' : Nat) (more : List PlacedToken) :
    ofTokens vocabulary textEnd' (tokens ++ more) = .error error := by
  by_cases hempty : tokens = []
  · rw [hempty] at h
    cases h
    cases hfinal
  · rw [ofTokens_eq vocabulary textEnd hempty, bind_eq_error_iff] at h
    rcases h with hrule | ⟨⟨assembly, rest⟩, hsum, hrest⟩
    · rcases failsForGood_readSum _ _ hrule hfinal with hgood | hlast
      · rw [ofTokens_eq vocabulary textEnd' (List.append_ne_nil_of_left_ne_nil hempty more)]
        exact bind_eq_error_iff.mpr (.inl (hgood textEnd' more))
      · exact absurd (isAtLastSign_of_readSum hlast) hsign
    · cases rest with
      | nil => cases hrest
      | cons placed rest =>
        cases hrest
        exact ofTokens_append_of_trailing hsum textEnd' more

/-- A plus before a name is wrong whatever follows the name. Another plus, which is the last token,
is not to blame. -/
theorem ofTokens_append_of_isFinal_plus :
    ∃ tokens, Token.ofText "2*+x+" = .ok tokens ∧
      ofTokens .standard 5 tokens = .error ⟨.unexpectedToken "+", 2⟩ ∧
      ¬IsAtLastSign .standard tokens ⟨.unexpectedToken "+", 2⟩ ∧
      ofTokens .standard 7 (tokens ++ [⟨.number 3, 5⟩, ⟨.mark .closeParen, 6⟩]) =
        .error ⟨.unexpectedToken "+", 2⟩ := by
  obtain ⟨tokens, htokens⟩ : ∃ tokens : List PlacedToken, tokens =
      [⟨.number 2, 0⟩, ⟨.mark .times, 1⟩, ⟨.mark .plus, 2⟩, ⟨.name "x", 3⟩, ⟨.mark .plus, 4⟩] :=
    ⟨_, rfl⟩
  have hscan : Token.ofText "2*+x+" = .ok tokens := by
    rw [htokens]
    decide +kernel
  have herror : ofTokens .standard 5 tokens = .error ⟨.unexpectedToken "+", 2⟩ := by
    rw [htokens]
    decide +kernel
  have hsign : ¬IsAtLastSign .standard tokens ⟨.unexpectedToken "+", 2⟩ := by
    rintro ⟨before, sign, position, hlast, -, -, hposition⟩
    have hplus := congrArg List.getLast? (htokens.symm.trans hlast)
    rw [List.getLast?_concat] at hplus
    cases hplus
    cases hposition
  exact ⟨tokens, hscan, herror, hsign, ofTokens_append_of_isFinal herror rfl hsign 7 _⟩

end Program

end BeamCalc
