import BeamCalc.Proofs.Grammar.Derivation
import BeamCalc.Proofs.Grammar.Location

/-!
# Tokens behind an expression

An expression is read as far as it goes. What follows it is too much, unless nothing does. The
rules themselves report no such token (`failsAsRule_readSum`); it is found when they have come to
an end (`ofTokens_of_readSum`).

`Program.ofTokens_trailing` says which token that is: the first one before which the tokens are an
expression by themselves, and which neither is an operator nor makes the last name a call.
-/

set_option autoImplicit false
set_option relaxedAutoImplicit false

namespace BeamCalc

/-- Whether a fault is one that a rule of the grammar finds. -/
def ParseFault.isOfRule : ParseFault → Bool
  | unexpectedToken _ | unexpectedEnd | unclosedParen | argumentCount .. | nestingTooDeep _ => true
  | emptyInput | unexpectedCharacter _ | trailingTokens _ => false

namespace Grammar

/-! ### The faults of rules -/

/-- Whether a step, if it fails, has a fault that a rule finds. -/
def FailsAsRule {result : Type} (step : Except ParseError result) : Prop :=
  ∀ ⦃error⦄, step = .error error → error.fault.isOfRule

namespace FailsAsRule

theorem ok {result : Type} (value : result) : FailsAsRule (.ok value) :=
  nofun

theorem error {result : Type} {fault : ParseFault} (position : Nat) (h : fault.isOfRule) :
    FailsAsRule (.error ⟨fault, position⟩ : Except ParseError result) := by
  rintro _ ⟨⟩
  exact h

theorem bind {first second : Type} {step : Except ParseError first}
    {next : first → Except ParseError second} (hstep : FailsAsRule step)
    (hnext : ∀ middle, step = .ok middle → FailsAsRule (next middle)) :
    FailsAsRule (step >>= next) := by
  intro error h
  rcases bind_eq_error_iff.mp h with hfails | ⟨middle, hok, hfails⟩
  · exact hstep hfails
  · exact hnext middle hok hfails

end FailsAsRule

theorem failsAsRule_descend (assembly : Assembly) (position : Nat) :
    FailsAsRule (assembly.descend position) := by
  unfold Assembly.descend
  split
  · exact .error position rfl
  · exact .ok _

theorem failsAsRule_emitCall (assembly : Assembly) (name : String) (position count : Nat) :
    FailsAsRule (emitCall assembly name position count) := by
  unfold emitCall
  dsimp only
  split
  · exact .ok _
  · exact .error position rfl

theorem failsAsRule_readSigned (assembly : Assembly) (sign : Mark) (position : Nat)
    (tokens : List PlacedToken) : FailsAsRule (readSigned assembly sign position tokens) := by
  unfold readSigned
  split
  · split
    · exact .ok _
    · exact .error position rfl
  · exact .error position rfl

theorem failsAsRule_readClosing (opening : Nat) (tokens : List PlacedToken) :
    FailsAsRule (readClosing opening tokens) := by
  unfold readClosing
  split
  · exact .ok _
  · exact .error opening rfl

mutual

/-- A sum fails with a fault that a rule finds. -/
theorem failsAsRule_readSum (assembly : Assembly) (tokens : List PlacedToken) :
    FailsAsRule (readSum assembly tokens) := by
  rw [readSum_eq]
  refine (failsAsRule_readProduct assembly tokens).bind ?_
  rintro ⟨next, left⟩ hfirst
  have hshorter := length_lt_of_readProduct hfirst
  exact failsAsRule_readFurtherTerms next left
termination_by 7 * tokens.length + 5

theorem failsAsRule_readFurtherTerms (assembly : Assembly) (tokens : List PlacedToken) :
    FailsAsRule (readFurtherTerms assembly tokens) := by
  by_cases hsign : ∃ sign position more, tokens = ⟨.mark sign, position⟩ :: more ∧ sign.isAdditive
  · obtain ⟨sign, position, more, htokens, additive⟩ := hsign
    have hmore : more.length < tokens.length := by simp [htokens]
    rw [htokens, readFurtherTerms_sign assembly additive]
    refine (failsAsRule_readProduct assembly more).bind ?_
    rintro ⟨next, left⟩ hnext
    have hshorter := length_lt_of_readProduct hnext
    exact failsAsRule_readFurtherTerms _ left
  · rw [readFurtherTerms_end assembly fun sign position more htokens additive ↦
      hsign ⟨sign, position, more, htokens, additive⟩]
    exact .ok _
termination_by 7 * tokens.length + 4

theorem failsAsRule_readProduct (assembly : Assembly) (tokens : List PlacedToken) :
    FailsAsRule (readProduct assembly tokens) := by
  rw [readProduct_eq]
  refine (failsAsRule_readPower assembly tokens).bind ?_
  rintro ⟨next, left⟩ hfirst
  have hshorter := length_lt_of_readPower hfirst
  exact failsAsRule_readFurtherFactors next left
termination_by 7 * tokens.length + 3

theorem failsAsRule_readFurtherFactors (assembly : Assembly) (tokens : List PlacedToken) :
    FailsAsRule (readFurtherFactors assembly tokens) := by
  by_cases hsign : ∃ sign position more,
      tokens = ⟨.mark sign, position⟩ :: more ∧ sign.isMultiplicative
  · obtain ⟨sign, position, more, htokens, multiplicative⟩ := hsign
    have hmore : more.length < tokens.length := by simp [htokens]
    rw [htokens, readFurtherFactors_sign assembly multiplicative]
    refine (failsAsRule_readPower assembly more).bind ?_
    rintro ⟨next, left⟩ hnext
    have hshorter := length_lt_of_readPower hnext
    exact failsAsRule_readFurtherFactors _ left
  · rw [readFurtherFactors_end assembly fun sign position more htokens multiplicative ↦
      hsign ⟨sign, position, more, htokens, multiplicative⟩]
    exact .ok _
termination_by 7 * tokens.length + 2

theorem failsAsRule_readPower (assembly : Assembly) (tokens : List PlacedToken) :
    FailsAsRule (readPower assembly tokens) := by
  rw [readPower_eq]
  refine (failsAsRule_readOperand assembly tokens).bind ?_
  rintro ⟨next, left⟩ hbase
  have hshorter := length_lt_of_readOperand hbase
  exact failsAsRule_readExponent next left
termination_by 7 * tokens.length + 2

theorem failsAsRule_readExponent (assembly : Assembly) (tokens : List PlacedToken) :
    FailsAsRule (readExponent assembly tokens) := by
  unfold readExponent
  split
  · rename_i position more
    refine (failsAsRule_descend assembly position).bind fun deeper _ ↦ ?_
    exact (failsAsRule_readPower deeper more).bind fun _ _ ↦ .ok _
  · exact .ok _
termination_by 7 * tokens.length + 2

theorem failsAsRule_readOperand (assembly : Assembly) (tokens : List PlacedToken) :
    FailsAsRule (readOperand assembly tokens) := by
  by_cases hminus : ∃ position more, tokens = ⟨.mark .minus, position⟩ :: more
  · obtain ⟨position, more, htokens⟩ := hminus
    have hmore : more.length < tokens.length := by simp [htokens]
    rw [htokens, readOperand_minus]
    exact (failsAsRule_readPrimary assembly more).bind fun _ _ ↦ .ok _
  · rw [readOperand_unsigned assembly fun position more htokens ↦ hminus ⟨position, more, htokens⟩]
    exact failsAsRule_readPrimary assembly tokens
termination_by 7 * tokens.length + 1

theorem failsAsRule_readPrimary (assembly : Assembly) (tokens : List PlacedToken) :
    FailsAsRule (readPrimary assembly tokens) := by
  match tokens with
  | [] =>
    rw [readPrimary_nil]
    exact .error _ rfl
  | ⟨.number value, position⟩ :: more =>
    rw [readPrimary_number]
    exact .ok _
  | ⟨.name name, position⟩ :: more =>
    by_cases hcall : ∃ opening inside, more = ⟨.mark .openParen, opening⟩ :: inside
    · obtain ⟨opening, inside, rfl⟩ := hcall
      rw [readPrimary_call]
      refine (failsAsRule_descend assembly opening).bind fun deeper _ ↦ ?_
      refine (failsAsRule_readArguments deeper inside opening 1).bind ?_
      rintro ⟨count, inner, rest⟩ -
      exact (failsAsRule_emitCall inner.ascend name position count).bind fun _ _ ↦ .ok _
    · rw [readPrimary_name assembly name position fun opening inside hmore ↦
        hcall ⟨opening, inside, hmore⟩]
      exact .ok _
  | ⟨.mark sign, position⟩ :: more =>
    by_cases hsign : sign.isAdditive
    · rw [readPrimary_sign assembly hsign]
      exact failsAsRule_readSigned assembly sign position more
    · by_cases hopen : sign = .openParen
      · obtain rfl := hopen
        rw [readPrimary_group]
        refine (failsAsRule_descend assembly position).bind fun deeper _ ↦ ?_
        refine (failsAsRule_readSum deeper more).bind ?_
        rintro ⟨inner, left⟩ -
        exact (failsAsRule_readClosing position left).bind fun _ _ ↦ .ok _
      · rw [readPrimary_mark assembly (by simpa using hsign) hopen]
        exact .error position rfl
termination_by 7 * tokens.length + 0

theorem failsAsRule_readArguments (assembly : Assembly) (tokens : List PlacedToken)
    (opening count : Nat) : FailsAsRule (readArguments assembly tokens opening count) := by
  rw [readArguments_eq]
  refine (failsAsRule_readSum assembly tokens).bind ?_
  rintro ⟨next, left⟩ hargument
  have hshorter := length_lt_of_readSum hargument
  change FailsAsRule (readFurtherArguments next opening count left)
  unfold readFurtherArguments
  split
  · rename_i comma more
    have hmore : more.length < tokens.length := Nat.lt_of_succ_lt hshorter
    exact failsAsRule_readArguments next more opening (count + 1)
  · exact .ok _
  · exact .error opening rfl
termination_by 7 * tokens.length + 6

end

/-! ### Where an expression ends -/

/-- Whether a token goes on with the expression before it: an operator does, and so does an opening
bracket behind a name. -/
def Continues (before : List PlacedToken) (token : Token) : Prop :=
  token.operator?.isSome ∨ token = .mark .openParen ∧ EndsInName before

/-- A sum ends before a token with which it does not go on. -/
theorem endsBefore_sum_cons_iff {before after : List PlacedToken} {placed : PlacedToken} :
    Rule.sum.EndsBefore before (placed :: after) ↔ ¬Continues before placed.token := by
  obtain ⟨token, position⟩ := placed
  constructor
  · rintro h (hoperator | ⟨hopen, hname⟩)
    · cases token with
      | number | name => cases hoperator
      | mark sign =>
        have hgoes : sign.isOperator = false := (h sign position after rfl).1
        simp [Token.operator?, hgoes] at hoperator
    · obtain rfl : token = _ := hopen
      exact (h .openParen position after rfl).2 rfl hname
  · rintro h sign position' rest heq
    cases heq
    constructor
    · by_contra hgoes
      have hsign : sign.isOperator = true := by simpa [Rule.goesOn] using hgoes
      exact h (.inl (by simp [Token.operator?, hsign]))
    · rintro rfl hname
      exact h (.inr ⟨rfl, hname⟩)

end Grammar

namespace Program

open Grammar

variable {vocabulary : Vocabulary} {textEnd : Nat} {tokens : List PlacedToken}

/-- An expression is read as far as to some tokens exactly if the tokens before them are a program
by themselves and it ends before them. -/
theorem exists_readSum_iff {before after : List PlacedToken} {beforeEnd : Nat} :
    (∃ assembly, readSum { vocabulary, textEnd } (before ++ after) = .ok (assembly, after)) ↔
      (∃ program, ofTokens vocabulary beforeEnd before = .ok program) ∧
        Rule.sum.EndsBefore before after := by
  have hdepth : ({ vocabulary, textEnd } : Assembly).depth ≤ nestingLimit := Nat.zero_le _
  constructor
  · rintro ⟨assembly, hread⟩
    obtain ⟨phrase, htokens, hassembles, hends⟩ := isRead_of_readSum hread
    obtain rfl := List.append_cancel_right htokens
    obtain ⟨hfits, hlevels, -⟩ := (phrase.emits_assemble hdepth).mp hassembles
    exact ⟨⟨⟨phrase.emission⟩, ofTokens_eq_ok_iff.mpr
      ⟨phrase, rfl, hfits, by simpa using hlevels, rfl⟩⟩, hends⟩
  · rintro ⟨⟨program, hprogram⟩, hends⟩
    obtain ⟨phrase, rfl, hfits, hlevels, -⟩ := ofTokens_eq_ok_iff.mp hprogram
    have hassembles := (phrase.emits_assemble hdepth).mpr ⟨hfits, by simpa using hlevels, rfl⟩
    have hread := readSum_tokens phrase { vocabulary, textEnd } hends
    rw [hassembles] at hread
    exact ⟨_, hread⟩

/-- Whether tokens fail because of the token at an index: an expression is read as far as to that
token, which is what the error shows. -/
def FailsAtTrailing (vocabulary : Vocabulary) (textEnd : Nat) (tokens : List PlacedToken)
    (index : Nat) : Prop :=
  ∃ assembly placed, tokens[index]? = some placed ∧
    readSum { vocabulary, textEnd } tokens = .ok (assembly, tokens.drop index) ∧
    ofTokens vocabulary textEnd tokens =
      .error ⟨.trailingTokens placed.token.text, placed.position⟩

theorem drop_of_getElem? {index : Nat} {placed : PlacedToken} (h : tokens[index]? = some placed) :
    tokens.drop index = placed :: tokens.drop (index + 1) := by
  obtain ⟨hindex, rfl⟩ := List.getElem?_eq_some_iff.mp h
  exact List.drop_eq_getElem_cons hindex

/-- Where an expression has been read and a token follows, that token is too much. -/
theorem ofTokens_of_readSum {assembly : Assembly} {placed : PlacedToken}
    {after : List PlacedToken}
    (h : readSum { vocabulary, textEnd } tokens = .ok (assembly, placed :: after)) :
    ofTokens vocabulary textEnd tokens =
      .error ⟨.trailingTokens placed.token.text, placed.position⟩ := by
  have hnonempty : tokens ≠ [] := by
    rintro rfl
    exact absurd (length_lt_of_readSum h) (Nat.not_lt_zero _)
  rw [ofTokens_eq vocabulary textEnd hnonempty, h]
  rfl

/-- Tokens fail because of the one at an index exactly if those before it are a program by
themselves and it does not go on with their expression. -/
theorem failsAtTrailing_iff {index beforeEnd : Nat} :
    FailsAtTrailing vocabulary textEnd tokens index ↔
      (∃ program, ofTokens vocabulary beforeEnd (tokens.take index) = .ok program) ∧
        ∃ placed, tokens[index]? = some placed ∧ ¬Continues (tokens.take index) placed.token := by
  have hread := @exists_readSum_iff vocabulary textEnd (tokens.take index) (tokens.drop index)
    beforeEnd
  rw [List.take_append_drop] at hread
  constructor
  · rintro ⟨assembly, placed, hplaced, hsum, -⟩
    obtain ⟨hprogram, hends⟩ := hread.mp ⟨assembly, hsum⟩
    rw [drop_of_getElem? hplaced] at hends
    exact ⟨hprogram, placed, hplaced, endsBefore_sum_cons_iff.mp hends⟩
  · rintro ⟨hprogram, placed, hplaced, hcontinues⟩
    rw [drop_of_getElem? hplaced] at hread
    obtain ⟨assembly, hsum⟩ := hread.mpr ⟨hprogram, endsBefore_sum_cons_iff.mpr hcontinues⟩
    refine ⟨assembly, placed, hplaced, ?_, ofTokens_of_readSum hsum⟩
    rw [drop_of_getElem? hplaced, hsum]

/-- Tokens fail because of one of them only. -/
theorem FailsAtTrailing.index_eq {index index' : Nat}
    (h : FailsAtTrailing vocabulary textEnd tokens index)
    (h' : FailsAtTrailing vocabulary textEnd tokens index') : index = index' := by
  obtain ⟨assembly, placed, hplaced, hsum, -⟩ := h
  obtain ⟨assembly', placed', hplaced', hsum', -⟩ := h'
  rw [hsum] at hsum'
  have hdrop : tokens.drop index = tokens.drop index' := (Prod.mk.inj (Except.ok.inj hsum')).2
  have hlength := congrArg List.length hdrop
  obtain ⟨hindex, -⟩ := List.getElem?_eq_some_iff.mp hplaced
  obtain ⟨hindex', -⟩ := List.getElem?_eq_some_iff.mp hplaced'
  rw [List.length_drop, List.length_drop] at hlength
  omega

/-- A token that is too much is so because an expression has been read as far as to it: the rules
do not find that fault. -/
theorem exists_failsAtTrailing {lexeme : String} {position : Nat}
    (h : ofTokens vocabulary textEnd tokens = .error ⟨.trailingTokens lexeme, position⟩) :
    ∃ index placed, FailsAtTrailing vocabulary textEnd tokens index ∧
      tokens[index]? = some placed ∧ placed.token.text = lexeme ∧ placed.position = position := by
  have hnonempty : tokens ≠ [] := by
    rintro rfl
    cases h
  rw [ofTokens_eq vocabulary textEnd hnonempty, bind_eq_error_iff] at h
  rcases h with hrule | ⟨⟨assembly, rest⟩, hsum, hrest⟩
  · cases failsAsRule_readSum _ _ hrule
  · cases rest with
    | nil => cases hrest
    | cons placed after =>
      cases hrest
      obtain ⟨phrase, htokens, -, -⟩ := isRead_of_readSum hsum
      have hdrop : tokens.drop phrase.tokens.length = placed :: after := by
        rw [← htokens, List.drop_left]
      have hplaced : tokens[phrase.tokens.length]? = some placed := by
        rw [← List.head?_drop, hdrop, List.head?_cons]
      have hfails : FailsAtTrailing vocabulary textEnd tokens phrase.tokens.length :=
        ⟨assembly, placed, hplaced, hsum.trans (by rw [hdrop]), ofTokens_of_readSum hsum⟩
      exact ⟨phrase.tokens.length, placed, hfails, hplaced, rfl, rfl⟩

/-- Tokens fail because of the one at an index exactly if those before it are a program by
themselves and it does not go on with their expression. There is at most one such index, and there
is one if the error is that a token is too much. -/
theorem ofTokens_trailing (vocabulary : Vocabulary) (textEnd beforeEnd : Nat)
    (tokens : List PlacedToken) :
    (∀ index, FailsAtTrailing vocabulary textEnd tokens index ↔
      (∃ program, ofTokens vocabulary beforeEnd (tokens.take index) = .ok program) ∧
        ∃ placed, tokens[index]? = some placed ∧ ¬Continues (tokens.take index) placed.token) ∧
    (∀ index index', FailsAtTrailing vocabulary textEnd tokens index →
      FailsAtTrailing vocabulary textEnd tokens index' → index = index') ∧
    ∀ lexeme position,
      ofTokens vocabulary textEnd tokens = .error ⟨.trailingTokens lexeme, position⟩ ↔
        ∃ index placed, FailsAtTrailing vocabulary textEnd tokens index ∧
          tokens[index]? = some placed ∧ placed.token.text = lexeme ∧
            placed.position = position := by
  refine ⟨fun index ↦ failsAtTrailing_iff, fun index index' h h' ↦ h.index_eq h',
    fun lexeme position ↦ ⟨exists_failsAtTrailing, ?_⟩⟩
  rintro ⟨index, placed, ⟨assembly, placed', hplaced', -, herror⟩, hplaced, rfl, rfl⟩
  rw [hplaced] at hplaced'
  cases hplaced'
  exact herror

/-- No operator stands between the groups, and the second bracket is no call. -/
theorem ofTokens_trailing_group :
    ∃ tokens, Token.ofText "(x)(y)" = .ok tokens ∧ FailsAtTrailing .standard 6 tokens 3 ∧
      ofTokens .standard 6 tokens = .error ⟨.trailingTokens "(", 3⟩ := by
  obtain ⟨tokens, htokens⟩ : ∃ tokens : List PlacedToken, tokens =
      [⟨.mark .openParen, 0⟩, ⟨.name "x", 1⟩, ⟨.mark .closeParen, 2⟩, ⟨.mark .openParen, 3⟩,
        ⟨.name "y", 4⟩, ⟨.mark .closeParen, 5⟩] := ⟨_, rfl⟩
  obtain ⟨hindex, -, herror⟩ := ofTokens_trailing .standard 6 3 tokens
  have hfails : FailsAtTrailing .standard 6 tokens 3 := by
    refine (hindex 3).mpr ⟨⟨⟨[.load "x"]⟩, ?_⟩, ⟨.mark .openParen, 3⟩, by rw [htokens]; rfl, ?_⟩
    · rw [htokens]
      decide +kernel
    · rw [htokens]
      rintro (hoperator | ⟨-, name, position, hlast⟩)
      · cases hoperator
      · cases hlast
  refine ⟨tokens, ?_, hfails, (herror "(" 3).mpr ⟨3, _, hfails, by rw [htokens]; rfl, rfl, rfl⟩⟩
  rw [htokens]
  decide +kernel

end Program

end BeamCalc
