import BeamCalc.Proofs.Grammar.Reading
import BeamCalc.Proofs.Grammar.Unambiguity

/-!
# Reading and deriving

The rules read exactly the phrases of the grammar. `readSum_tokens` and its companions say that a
phrase, where it ends, is read to its end and that this gives what `Phrase.assemble` gives, a
failure included. `isRead_of_readSum` and its companions say that what a rule reads is a phrase.
-/

set_option autoImplicit false
set_option relaxedAutoImplicit false

namespace BeamCalc.Grammar

open Phrase

/-! ### Phrases are read -/

mutual

/-- A sum is read to its end. -/
theorem readSum_tokens (phrase : Phrase .sum) (assembly : Assembly) {rest : List PlacedToken}
    (hends : phrase.EndsBefore rest) :
    readSum assembly (phrase.tokens ++ rest) =
      (phrase.assemble assembly).map fun assembly ↦ (assembly, rest) := by
  cases phrase with
  | sum first others =>
    obtain ⟨hfirst, hothers⟩ := endsBefore_sum_iff.mp hends
    rw [tokens, List.append_assoc, readSum_eq, readProduct_tokens first assembly hfirst, assemble]
    cases first.assemble assembly with
    | error error => rfl
    | ok assembly => exact readFurtherTerms_tokens others assembly hothers

theorem readFurtherTerms_tokens (phrase : Phrase .furtherTerms) (assembly : Assembly)
    {rest : List PlacedToken} (hends : phrase.EndsBefore rest) :
    readFurtherTerms assembly (phrase.tokens ++ rest) =
      (phrase.assemble assembly).map fun assembly ↦ (assembly, rest) := by
  cases phrase with
  | noTerm =>
    refine readFurtherTerms_end assembly fun sign position more hrest hsign ↦ ?_
    obtain rfl : rest = _ := hrest
    exact not_endsBefore_of_goesOn (goesOn_of_isAdditive hsign) hends
  | term sign additive position next others =>
    obtain ⟨hnext, hothers⟩ := endsBefore_term_iff.mp hends
    rw [tokens, List.cons_append, List.append_assoc, readFurtherTerms_sign assembly additive,
      readProduct_tokens next assembly hnext, assemble]
    cases next.assemble assembly with
    | error error => rfl
    | ok assembly => exact readFurtherTerms_tokens others _ hothers

theorem readProduct_tokens (phrase : Phrase .product) (assembly : Assembly)
    {rest : List PlacedToken} (hends : phrase.EndsBefore rest) :
    readProduct assembly (phrase.tokens ++ rest) =
      (phrase.assemble assembly).map fun assembly ↦ (assembly, rest) := by
  cases phrase with
  | product first others =>
    obtain ⟨hfirst, hothers⟩ := endsBefore_product_iff.mp hends
    rw [tokens, List.append_assoc, readProduct_eq, readPower_tokens first assembly hfirst, assemble]
    cases first.assemble assembly with
    | error error => rfl
    | ok assembly => exact readFurtherFactors_tokens others assembly hothers

theorem readFurtherFactors_tokens (phrase : Phrase .furtherFactors) (assembly : Assembly)
    {rest : List PlacedToken} (hends : phrase.EndsBefore rest) :
    readFurtherFactors assembly (phrase.tokens ++ rest) =
      (phrase.assemble assembly).map fun assembly ↦ (assembly, rest) := by
  cases phrase with
  | noFactor =>
    refine readFurtherFactors_end assembly fun sign position more hrest hsign ↦ ?_
    obtain rfl : rest = _ := hrest
    exact not_endsBefore_of_goesOn (goesOn_of_isMultiplicative hsign) hends
  | factor sign multiplicative position next others =>
    obtain ⟨hnext, hothers⟩ := endsBefore_factor_iff.mp hends
    rw [tokens, List.cons_append, List.append_assoc,
      readFurtherFactors_sign assembly multiplicative,
      readPower_tokens next assembly hnext, assemble]
    cases next.assemble assembly with
    | error error => rfl
    | ok assembly => exact readFurtherFactors_tokens others _ hothers

theorem readPower_tokens (phrase : Phrase .power) (assembly : Assembly) {rest : List PlacedToken}
    (hends : phrase.EndsBefore rest) :
    readPower assembly (phrase.tokens ++ rest) =
      (phrase.assemble assembly).map fun assembly ↦ (assembly, rest) := by
  cases phrase with
  | unraised base =>
    obtain ⟨hbase, hpower⟩ := endsBefore_unraised_iff.mp hends
    rw [tokens, readPower_eq, readOperand_tokens base assembly hbase, assemble]
    cases base.assemble assembly with
    | error error => rfl
    | ok assembly => exact readExponent_end assembly hpower
  | raised base position exponent =>
    have hexponent := endsBefore_raised_iff.mp hends
    rw [tokens, List.append_assoc, List.cons_append, readPower_eq,
      readOperand_tokens base assembly (endsBefore_power base position), assemble]
    cases base.assemble assembly with
    | error error => rfl
    | ok assembly =>
      change readExponent assembly (⟨.mark .power, position⟩ :: (exponent.tokens ++ rest)) =
        Except.map _ (assembly.nested position exponent.assemble >>= _)
      rw [readExponent, Assembly.nested]
      cases assembly.descend position with
      | error error => rfl
      | ok deeper =>
        change (readPower deeper (exponent.tokens ++ rest) >>= _) =
          Except.map _ ((exponent.assemble deeper >>= _) >>= _)
        rw [readPower_tokens exponent deeper hexponent]
        cases exponent.assemble deeper <;> rfl

theorem readOperand_tokens (phrase : Phrase .operand) (assembly : Assembly)
    {rest : List PlacedToken} (hends : phrase.EndsBefore rest) :
    readOperand assembly (phrase.tokens ++ rest) =
      (phrase.assemble assembly).map fun assembly ↦ (assembly, rest) := by
  cases phrase with
  | unsigned inner =>
    have hinner := endsBefore_unsigned_iff.mp hends
    rw [tokens, readOperand_unsigned assembly (tokens_append_ne_minus inner), assemble]
    exact readPrimary_tokens inner assembly hinner
  | negated position inner =>
    rw [tokens, List.cons_append, readOperand_minus,
      readPrimary_negatable inner assembly (endsBefore_negated_iff.mp hends), assemble]
    cases inner.assemble assembly <;> rfl

theorem readPrimary_negatable (phrase : Phrase .negatable) (assembly : Assembly)
    {rest : List PlacedToken} (hends : phrase.EndsBefore rest) :
    readPrimary assembly (phrase.tokens ++ rest) =
      (phrase.assemble assembly).map fun assembly ↦ (assembly, rest) := by
  cases phrase with
  | bare inner => exact readPrimary_tokens inner assembly (endsBefore_bare_iff.mp hends)
  | negative position value =>
    rw [tokens, List.cons_append, readPrimary_sign assembly rfl]
    exact if_pos rfl

theorem readPrimary_tokens (phrase : Phrase .primary) (assembly : Assembly)
    {rest : List PlacedToken} (hends : phrase.EndsBefore rest) :
    readPrimary assembly (phrase.tokens ++ rest) =
      (phrase.assemble assembly).map fun assembly ↦ (assembly, rest) := by
  cases phrase with
  | number position value => exact readPrimary_number assembly value position rest
  | positive position value =>
    rw [tokens, List.cons_append, readPrimary_sign assembly rfl]
    exact if_pos rfl
  | named position name =>
    exact readPrimary_name assembly name position (endsBefore_named_iff.mp hends)
  | call position name opening arguments closing =>
    rw [tokens, List.cons_append, List.cons_append, List.append_assoc, readPrimary_call, assemble,
      Assembly.nested]
    cases assembly.descend opening with
    | error error => rfl
    | ok deeper =>
      change (readArguments deeper (arguments.tokens ++ ⟨.mark .closeParen, closing⟩ :: rest)
        opening 1 >>= _) = Except.map _ ((arguments.assemble deeper >>= _) >>= _)
      rw [readArguments_tokens arguments deeper opening 1 closing]
      cases arguments.assemble deeper with
      | error error => rfl
      | ok deeper =>
        change (emitCall deeper.ascend name position (1 + arguments.count - 1) >>= _) =
          Except.map _ (emitCall deeper.ascend name position arguments.count)
        rw [Nat.add_sub_cancel_left]
        cases emitCall deeper.ascend name position arguments.count <;> rfl
  | group opening inner closing =>
    rw [tokens, List.cons_append, List.append_assoc, readPrimary_group, assemble, Assembly.nested]
    cases assembly.descend opening with
    | error error => rfl
    | ok deeper =>
      change (readSum deeper (inner.tokens ++ ⟨.mark .closeParen, closing⟩ :: rest) >>= _) =
        Except.map _ (inner.assemble deeper >>= _)
      rw [readSum_tokens inner deeper (endsBefore_closeParen inner closing)]
      cases inner.assemble deeper <;> rfl

/-- The arguments of a call are read up to the bracket behind them. -/
theorem readArguments_tokens (phrase : Phrase .arguments) (assembly : Assembly)
    (opening count closing : Nat) {rest : List PlacedToken} :
    readArguments assembly (phrase.tokens ++ ⟨.mark .closeParen, closing⟩ :: rest) opening count =
      (phrase.assemble assembly).map fun assembly ↦
        (count + phrase.count - 1, assembly, rest) := by
  cases phrase with
  | last argument =>
    rw [tokens, readArguments_eq,
      readSum_tokens argument assembly (endsBefore_closeParen argument closing), assemble,
      Phrase.count, Nat.add_sub_cancel]
    cases argument.assemble assembly <;> rfl
  | further argument comma others =>
    rw [tokens, List.append_assoc, List.cons_append, readArguments_eq,
      readSum_tokens argument assembly (endsBefore_comma argument comma), assemble]
    cases argument.assemble assembly with
    | error error => rfl
    | ok assembly =>
      change readArguments assembly (others.tokens ++ ⟨.mark .closeParen, closing⟩ :: rest)
        opening (count + 1) = (others.assemble assembly).map _
      rw [readArguments_tokens others assembly opening (count + 1) closing, Phrase.count]
      have hcount : count + 1 + others.count - 1 = count + (others.count + 1) - 1 := by omega
      rw [hcount]

end

/-! ### Only phrases are read -/

/-- What it means that a rule, begun at `assembly` and `tokens`, has read a phrase and stopped at
`extended` and `rest`. -/
structure Phrase.IsRead {rule : Rule} (phrase : Phrase rule) (assembly : Assembly)
    (tokens : List PlacedToken) (extended : Assembly) (rest : List PlacedToken) : Prop where
  tokens_eq : phrase.tokens ++ rest = tokens
  assembles : phrase.assemble assembly = .ok extended
  ends : phrase.EndsBefore rest

/-- A signed number is read where a number touches the sign. -/
theorem readSigned_eq_ok {assembly extended : Assembly} {sign : Mark} {position : Nat}
    {tokens rest : List PlacedToken}
    (h : readSigned assembly sign position tokens = .ok (extended, rest)) :
    ∃ value, tokens = ⟨.number value, position + 1⟩ :: rest ∧
      extended = assembly.emit (.number (if sign = .minus then -value else value)) := by
  unfold readSigned at h
  split at h
  · split at h
    · rename_i value start more hstart
      cases h
      exact ⟨value, by rw [hstart], rfl⟩
    · cases h
  · cases h

/-- The bracket that closes another one is read where it stands. -/
theorem readClosing_eq_ok {opening : Nat} {tokens rest : List PlacedToken}
    (h : readClosing opening tokens = .ok rest) :
    ∃ closing, tokens = ⟨.mark .closeParen, closing⟩ :: rest := by
  unfold readClosing at h
  split at h
  · cases h
    exact ⟨_, rfl⟩
  · cases h

mutual

/-- What is read as a sum is a sum. -/
theorem isRead_of_readSum {assembly extended : Assembly} {tokens rest : List PlacedToken}
    (h : readSum assembly tokens = .ok (extended, rest)) :
    ∃ phrase : Phrase .sum, phrase.IsRead assembly tokens extended rest := by
  rw [readSum_eq, bind_eq_ok_iff] at h
  obtain ⟨⟨middle, left⟩, hfirst, hothers⟩ := h
  have hshorter := length_lt_of_readProduct hfirst
  obtain ⟨first, htokens, hassembles, hends⟩ := isRead_of_readProduct hfirst
  obtain ⟨others, rfl, hassembles', hends'⟩ := isRead_of_readFurtherTerms hothers
    fun sign position more hleft ↦ (hends sign position more hleft).1
  refine ⟨.sum first others, ?_, ?_, endsBefore_sum_iff.mpr ⟨hends, hends'⟩⟩
  · rw [Phrase.tokens, List.append_assoc, htokens]
  · rw [assemble, hassembles]
    exact hassembles'
termination_by 7 * tokens.length + 5

/-- What is read behind a product are further terms, because the product has ended there. -/
theorem isRead_of_readFurtherTerms {assembly extended : Assembly} {tokens rest : List PlacedToken}
    (h : readFurtherTerms assembly tokens = .ok (extended, rest))
    (hbehind : ∀ sign position more, tokens = ⟨.mark sign, position⟩ :: more →
      Rule.product.goesOn sign = false) :
    ∃ phrase : Phrase .furtherTerms, phrase.IsRead assembly tokens extended rest := by
  by_cases hsign : ∃ sign position more, tokens = ⟨.mark sign, position⟩ :: more ∧ sign.isAdditive
  · obtain ⟨sign, position, more, htokens, additive⟩ := hsign
    have hmore : more.length < tokens.length := by simp [htokens]
    rw [htokens, readFurtherTerms_sign assembly additive, bind_eq_ok_iff] at h
    obtain ⟨⟨middle, left⟩, hnext, hothers⟩ := h
    have hshorter := length_lt_of_readProduct hnext
    obtain ⟨next, hmore', hassembles, hends⟩ := isRead_of_readProduct hnext
    obtain ⟨others, rfl, hassembles', hends'⟩ := isRead_of_readFurtherTerms hothers
      fun sign position more hleft ↦ (hends sign position more hleft).1
    refine ⟨.term sign additive position next others, ?_, ?_,
      endsBefore_term_iff.mpr ⟨hends, hends'⟩⟩
    · rw [Phrase.tokens, List.cons_append, List.append_assoc, hmore', htokens]
    · rw [assemble, hassembles]
      exact hassembles'
  · have hend : ∀ sign position more, tokens = ⟨.mark sign, position⟩ :: more →
        ¬sign.isAdditive := fun sign position more htokens additive ↦
      hsign ⟨sign, position, more, htokens, additive⟩
    rw [readFurtherTerms_end assembly hend] at h
    cases h
    refine ⟨.noTerm, rfl, rfl, fun sign position more htokens ↦ ⟨?_, fun _ ↦ not_endsInName_nil⟩⟩
    exact goesOn_furtherTerms_eq_false (hbehind sign position more htokens)
      (hend sign position more htokens)
termination_by 7 * tokens.length + 4

theorem isRead_of_readProduct {assembly extended : Assembly} {tokens rest : List PlacedToken}
    (h : readProduct assembly tokens = .ok (extended, rest)) :
    ∃ phrase : Phrase .product, phrase.IsRead assembly tokens extended rest := by
  rw [readProduct_eq, bind_eq_ok_iff] at h
  obtain ⟨⟨middle, left⟩, hfirst, hothers⟩ := h
  have hshorter := length_lt_of_readPower hfirst
  obtain ⟨first, htokens, hassembles, hends⟩ := isRead_of_readPower hfirst
  obtain ⟨others, rfl, hassembles', hends'⟩ := isRead_of_readFurtherFactors hothers
    fun sign position more hleft ↦ (hends sign position more hleft).1
  refine ⟨.product first others, ?_, ?_, endsBefore_product_iff.mpr ⟨hends, hends'⟩⟩
  · rw [Phrase.tokens, List.append_assoc, htokens]
  · rw [assemble, hassembles]
    exact hassembles'
termination_by 7 * tokens.length + 3

/-- What is read behind a power are further factors, because the power has ended there. -/
theorem isRead_of_readFurtherFactors {assembly extended : Assembly}
    {tokens rest : List PlacedToken}
    (h : readFurtherFactors assembly tokens = .ok (extended, rest))
    (hbehind : ∀ sign position more, tokens = ⟨.mark sign, position⟩ :: more →
      Rule.power.goesOn sign = false) :
    ∃ phrase : Phrase .furtherFactors, phrase.IsRead assembly tokens extended rest := by
  by_cases hsign : ∃ sign position more,
      tokens = ⟨.mark sign, position⟩ :: more ∧ sign.isMultiplicative
  · obtain ⟨sign, position, more, htokens, multiplicative⟩ := hsign
    have hmore : more.length < tokens.length := by simp [htokens]
    rw [htokens, readFurtherFactors_sign assembly multiplicative, bind_eq_ok_iff] at h
    obtain ⟨⟨middle, left⟩, hnext, hothers⟩ := h
    have hshorter := length_lt_of_readPower hnext
    obtain ⟨next, hmore', hassembles, hends⟩ := isRead_of_readPower hnext
    obtain ⟨others, rfl, hassembles', hends'⟩ := isRead_of_readFurtherFactors hothers
      fun sign position more hleft ↦ (hends sign position more hleft).1
    refine ⟨.factor sign multiplicative position next others, ?_, ?_,
      endsBefore_factor_iff.mpr ⟨hends, hends'⟩⟩
    · rw [Phrase.tokens, List.cons_append, List.append_assoc, hmore', htokens]
    · rw [assemble, hassembles]
      exact hassembles'
  · have hend : ∀ sign position more, tokens = ⟨.mark sign, position⟩ :: more →
        ¬sign.isMultiplicative := fun sign position more htokens multiplicative ↦
      hsign ⟨sign, position, more, htokens, multiplicative⟩
    rw [readFurtherFactors_end assembly hend] at h
    cases h
    refine ⟨.noFactor, rfl, rfl, fun sign position more htokens ↦
      ⟨?_, fun _ ↦ not_endsInName_nil⟩⟩
    exact goesOn_furtherFactors_eq_false (hbehind sign position more htokens)
      (hend sign position more htokens)
termination_by 7 * tokens.length + 2

theorem isRead_of_readPower {assembly extended : Assembly} {tokens rest : List PlacedToken}
    (h : readPower assembly tokens = .ok (extended, rest)) :
    ∃ phrase : Phrase .power, phrase.IsRead assembly tokens extended rest := by
  rw [readPower_eq, bind_eq_ok_iff] at h
  obtain ⟨⟨middle, left⟩, hbase, hexponent⟩ := h
  have hshorter := length_lt_of_readOperand hbase
  obtain ⟨base, htokens, hassembles, hends⟩ := isRead_of_readOperand hbase
  change readExponent middle left = _ at hexponent
  by_cases hpower : ∃ position more, left = ⟨.mark .power, position⟩ :: more
  · obtain ⟨position, more, hleft⟩ := hpower
    have hmore : more.length < left.length := by simp [hleft]
    rw [hleft, readExponent, bind_eq_ok_iff] at hexponent
    obtain ⟨deeper, hdescend, hinner⟩ := hexponent
    obtain ⟨⟨deeper', left'⟩, hinner, hresult⟩ := bind_eq_ok_iff.mp hinner
    obtain ⟨exponent, hmore', hassembles', hends'⟩ := isRead_of_readPower hinner
    cases hresult
    refine ⟨.raised base position exponent, ?_, ?_, endsBefore_raised_iff.mpr hends'⟩
    · rw [Phrase.tokens, List.append_assoc, List.cons_append, hmore', ← hleft, htokens]
    · rw [assemble, hassembles]
      change (middle.nested position exponent.assemble >>= _) = _
      rw [Assembly.nested, hdescend]
      change ((exponent.assemble deeper >>= _) >>= _) = _
      rw [hassembles']
      rfl
  · have hend : ∀ position more, left ≠ ⟨.mark .power, position⟩ :: more :=
      fun position more hleft ↦ hpower ⟨position, more, hleft⟩
    rw [readExponent_end middle hend] at hexponent
    cases hexponent
    exact ⟨.unraised base, htokens, hassembles, endsBefore_unraised_iff.mpr ⟨hends, hend⟩⟩
termination_by 7 * tokens.length + 2

theorem isRead_of_readOperand {assembly extended : Assembly} {tokens rest : List PlacedToken}
    (h : readOperand assembly tokens = .ok (extended, rest)) :
    ∃ phrase : Phrase .operand, phrase.IsRead assembly tokens extended rest := by
  by_cases hminus : ∃ position more, tokens = ⟨.mark .minus, position⟩ :: more
  · obtain ⟨position, more, htokens⟩ := hminus
    have hmore : more.length < tokens.length := by simp [htokens]
    rw [htokens, readOperand_minus, bind_eq_ok_iff] at h
    obtain ⟨⟨middle, left⟩, hinner, hresult⟩ := h
    obtain ⟨inner, hmore', hassembles, hends⟩ := isRead_of_readPrimary hinner
    cases hresult
    refine ⟨.negated position inner, ?_, ?_, endsBefore_negated_iff.mpr hends⟩
    · rw [Phrase.tokens, List.cons_append, hmore', htokens]
    · rw [assemble, hassembles]
      rfl
  · have hunsigned : ∀ position more, tokens ≠ ⟨.mark .minus, position⟩ :: more :=
      fun position more htokens ↦ hminus ⟨position, more, htokens⟩
    rw [readOperand_unsigned assembly hunsigned] at h
    obtain ⟨phrase, htokens, hassembles, hends⟩ := isRead_of_readPrimary h
    cases phrase with
    | bare inner => exact ⟨.unsigned inner, htokens, hassembles, hends⟩
    | negative position value => exact absurd htokens.symm (hunsigned position _)
termination_by 7 * tokens.length + 1

/-- What is read as a primary may be negated; only behind a minus it begins with one. -/
theorem isRead_of_readPrimary {assembly extended : Assembly} {tokens rest : List PlacedToken}
    (h : readPrimary assembly tokens = .ok (extended, rest)) :
    ∃ phrase : Phrase .negatable, phrase.IsRead assembly tokens extended rest := by
  match htokens : tokens with
  | [] =>
    rw [readPrimary_nil] at h
    cases h
  | ⟨.number value, position⟩ :: more =>
    rw [readPrimary_number] at h
    cases h
    exact ⟨.bare (.number position value), rfl, rfl, endsBefore_of_number [] value position⟩
  | ⟨.name name, position⟩ :: more =>
    by_cases hcall : ∃ opening inside, more = ⟨.mark .openParen, opening⟩ :: inside
    · obtain ⟨opening, inside, hmore⟩ := hcall
      have hinside : inside.length < more.length := by simp [hmore]
      rw [hmore, readPrimary_call, bind_eq_ok_iff] at h
      obtain ⟨deeper, hdescend, h⟩ := h
      obtain ⟨⟨found, deeper', left⟩, harguments, h⟩ := bind_eq_ok_iff.mp h
      obtain ⟨arguments, closing, hinside', hassembles, hfound⟩ :=
        isRead_of_readArguments harguments
      rw [Nat.add_sub_cancel_left] at hfound
      obtain ⟨called, hcalled, hresult⟩ := bind_eq_ok_iff.mp h
      cases hresult
      refine ⟨.bare (.call position name opening arguments closing), ?_, ?_,
        endsBefore_of_closeParen
          (⟨.name name, position⟩ :: ⟨.mark .openParen, opening⟩ :: arguments.tokens) closing⟩
      · simp [Phrase.tokens, hinside', hmore]
      · rw [assemble, assemble, Assembly.nested, hdescend]
        change ((arguments.assemble deeper >>= _) >>= _) = _
        rw [hassembles, ← hfound]
        exact hcalled
    · have hplain : ∀ opening inside, more ≠ ⟨.mark .openParen, opening⟩ :: inside :=
        fun opening inside hmore ↦ hcall ⟨opening, inside, hmore⟩
      rw [readPrimary_name assembly name position hplain] at h
      cases h
      exact ⟨.bare (.named position name), rfl, rfl, endsBefore_named_iff.mpr hplain⟩
  | ⟨.mark sign, position⟩ :: more =>
    by_cases hsign : sign.isAdditive
    · rw [readPrimary_sign assembly hsign] at h
      obtain ⟨value, rfl, rfl⟩ := readSigned_eq_ok h
      cases sign with
      | plus =>
        exact ⟨.bare (.positive position value), rfl, rfl,
          endsBefore_of_number [⟨.mark .plus, position⟩] value _⟩
      | minus =>
        exact ⟨.negative position value, rfl, rfl,
          endsBefore_of_number [⟨.mark .minus, position⟩] value _⟩
      | _ => cases hsign
    · by_cases hopen : sign = .openParen
      · obtain rfl := hopen
        rw [readPrimary_group, bind_eq_ok_iff] at h
        obtain ⟨deeper, hdescend, h⟩ := h
        obtain ⟨⟨deeper', left⟩, hinner, h⟩ := bind_eq_ok_iff.mp h
        obtain ⟨rest', hclosing, hresult⟩ := bind_eq_ok_iff.mp h
        cases hresult
        obtain ⟨closing, rfl⟩ := readClosing_eq_ok hclosing
        obtain ⟨inner, hinside, hassembles, -⟩ := isRead_of_readSum hinner
        refine ⟨.bare (.group position inner closing), ?_, ?_,
          endsBefore_of_closeParen (⟨.mark .openParen, position⟩ :: inner.tokens) closing⟩
        · simp [Phrase.tokens, hinside]
        · rw [assemble, assemble, Assembly.nested, hdescend]
          change (inner.assemble deeper >>= _) = _
          rw [hassembles]
          rfl
      · rw [readPrimary_mark assembly (by simpa using hsign) hopen] at h
        cases h
termination_by 7 * tokens.length + 0
decreasing_by all_goals simp only [List.length_cons]; omega

/-- What is read as the arguments of a call are arguments and the bracket behind them. -/
theorem isRead_of_readArguments {assembly extended : Assembly} {tokens rest : List PlacedToken}
    {opening count found : Nat}
    (h : readArguments assembly tokens opening count = .ok (found, extended, rest)) :
    ∃ (phrase : Phrase .arguments) (closing : Nat),
      phrase.tokens ++ ⟨.mark .closeParen, closing⟩ :: rest = tokens ∧
        phrase.assemble assembly = .ok extended ∧ found = count + phrase.count - 1 := by
  rw [readArguments_eq, bind_eq_ok_iff] at h
  obtain ⟨⟨middle, left⟩, hargument, hothers⟩ := h
  change readFurtherArguments middle opening count left = _ at hothers
  have hshorter := length_lt_of_readSum hargument
  obtain ⟨argument, htokens, hassembles, -⟩ := isRead_of_readSum hargument
  unfold readFurtherArguments at hothers
  split at hothers
  · rename_i comma more
    rw [List.length_cons] at hshorter
    obtain ⟨others, closing, hmore, hassembles', hfound⟩ := isRead_of_readArguments hothers
    refine ⟨.further argument comma others, closing, ?_, ?_, ?_⟩
    · rw [Phrase.tokens, List.append_assoc, List.cons_append, hmore, htokens]
    · rw [assemble, hassembles]
      exact hassembles'
    · rw [hfound, Phrase.count]
      omega
  · rename_i closing more
    cases hothers
    refine ⟨.last argument, closing, htokens, hassembles, ?_⟩
    rw [Phrase.count, Nat.add_sub_cancel]
  · cases hothers
termination_by 7 * tokens.length + 6

end

end BeamCalc.Grammar

namespace BeamCalc.Program

open Grammar

/-- A list of tokens is a program exactly if it is a sum of the grammar whose calls fit and that
stays within the nesting limit. Its instructions are the postfix form of that sum. -/
theorem ofTokens_eq_ok_iff {vocabulary : Vocabulary} {textEnd : Nat} {tokens : List PlacedToken}
    {program : Program} :
    ofTokens vocabulary textEnd tokens = .ok program ↔
      ∃ phrase : Phrase .sum, phrase.tokens = tokens ∧ phrase.CallsFit vocabulary ∧
        phrase.depth ≤ nestingLimit ∧ phrase.emission = program.instructions := by
  have hdepth : ({ vocabulary, textEnd } : Assembly).depth ≤ nestingLimit := Nat.zero_le _
  constructor
  · intro h
    have hnonempty : tokens ≠ [] := by
      rintro rfl
      cases h
    rw [ofTokens_eq vocabulary textEnd hnonempty, bind_eq_ok_iff] at h
    obtain ⟨⟨assembly, rest⟩, hread, hresult⟩ := h
    cases rest with
    | cons => cases hresult
    | nil =>
      cases hresult
      obtain ⟨phrase, htokens, hassembles, -⟩ := isRead_of_readSum hread
      obtain ⟨hfits, hlevels, rfl⟩ := (phrase.emits_assemble hdepth).mp hassembles
      rw [List.append_nil] at htokens
      refine ⟨phrase, htokens, hfits, by simpa using hlevels, ?_⟩
      rw [Assembly.program_emitAll]
  · rintro ⟨phrase, rfl, hfits, hlevels, hemission⟩
    have hassembles := (phrase.emits_assemble hdepth).mpr ⟨hfits, by simpa using hlevels, rfl⟩
    have hread := readSum_tokens phrase { vocabulary, textEnd } .nil
    rw [List.append_nil, hassembles] at hread
    rw [ofTokens_eq vocabulary textEnd (phrase.tokens_ne_nil (by simp) (by simp)), hread]
    change Except.ok (Assembly.program _) = _
    rw [Assembly.program_emitAll, hemission]

/-- A list of tokens has at most one derivation. It is a program exactly if it has one with fitting
calls and within the nesting limit, and then the instructions are the postfix form of that
derivation. -/
theorem ofTokens_eq_ok_iff_derivation :
    (Function.Injective fun phrase : Phrase .sum ↦ phrase.tokens) ∧
      ∀ (vocabulary : Vocabulary) (textEnd : Nat) (tokens : List PlacedToken) (program : Program),
        ofTokens vocabulary textEnd tokens = .ok program ↔
          ∃ phrase : Phrase .sum, phrase.tokens = tokens ∧ phrase.CallsFit vocabulary ∧
            phrase.depth ≤ nestingLimit ∧ phrase.emission = program.instructions :=
  ⟨Phrase.tokens_injective, fun _ _ _ _ ↦ ofTokens_eq_ok_iff⟩

/-- A text is a program exactly if its tokens are a sum of the grammar whose calls fit and that
stays within the nesting limit. -/
theorem ofText_eq_ok_iff {vocabulary : Vocabulary} {text : String} {program : Program} :
    ofText vocabulary text = .ok program ↔
      ∃ phrase : Phrase .sum, Token.ofText text = .ok phrase.tokens ∧
        phrase.CallsFit vocabulary ∧ phrase.depth ≤ nestingLimit ∧
          phrase.emission = program.instructions := by
  rw [ofText, bind_eq_ok_iff]
  constructor
  · rintro ⟨tokens, htokens, hprogram⟩
    obtain ⟨phrase, rfl, hphrase⟩ := ofTokens_eq_ok_iff.mp hprogram
    exact ⟨phrase, htokens, hphrase⟩
  · rintro ⟨phrase, htokens, hphrase⟩
    exact ⟨phrase.tokens, htokens, ofTokens_eq_ok_iff.mpr ⟨phrase, rfl, hphrase⟩⟩

end BeamCalc.Program
