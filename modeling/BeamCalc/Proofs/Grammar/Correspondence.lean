import BeamCalc.Proofs.Grammar.Reading
import BeamCalc.Proofs.Token.Likeness

/-!
# Corresponding readings

The rules read lists of tokens that are alike in the same way (`readSum_corresponds` and its
companions): where one reading fails, so does the other, with the same fault at the same token, and
where they succeed they have emitted the same instructions and leave lists that are alike again. The
vocabularies may differ where no call needs them. On the way every error is located: it points at a
token of the whole list, and at one of the kind that its fault speaks of (`Located`).

Lists that are alike may have their tokens at other positions. If they have not, the result is the
same as a whole, so the vocabulary decides only how many arguments a call has
(`Program.ofTokens_congr`).
-/

set_option autoImplicit false
set_option relaxedAutoImplicit false

namespace BeamCalc

namespace Grammar

/-- What a list of tokens is read with: the vocabulary, where its text ends, and all the tokens. -/
structure Source where
  vocabulary : Vocabulary
  textEnd : Nat
  tokens : List PlacedToken

namespace Source

/-- Whether the name at a position is called. -/
def Calls (source : Source) (name : String) (position : Nat) : Prop :=
  ∃ opening, [⟨.name name, position⟩, ⟨.mark .openParen, opening⟩] <:+: source.tokens

/-- Whether another vocabulary wants the same of every call. -/
def CallsAgree (source source' : Source) : Prop :=
  ∀ name position, source.Calls name position →
    source.vocabulary.arity name = source'.vocabulary.arity name

/-- Whether an error points at what its fault speaks of. -/
def Located (source : Source) (error : ParseError) : Prop :=
  match error.fault with
  | .emptyInput => source.tokens = [] ∧ error.position = source.textEnd
  | .unexpectedEnd => error.position = source.textEnd
  | .unexpectedToken lexeme | .trailingTokens lexeme =>
    ∃ token, ⟨token, error.position⟩ ∈ source.tokens ∧ token.text = lexeme
  | .unclosedParen => ⟨.mark .openParen, error.position⟩ ∈ source.tokens
  | .nestingTooDeep limit => limit = nestingLimit ∧
    (⟨.mark .openParen, error.position⟩ ∈ source.tokens ∨
      ⟨.mark .power, error.position⟩ ∈ source.tokens)
  | .argumentCount name expected found => source.Calls name error.position ∧
    expected = source.vocabulary.arity name ∧ found ≠ expected
  | .unexpectedCharacter _ => False

/-- Positions of tokens that stand at the same place in both lists, or of both ends. -/
inductive SamePlace (source source' : Source) : Nat → Nat → Prop where
  | token {placed placed' : PlacedToken}
      (h : (placed, placed') ∈ source.tokens.zip source'.tokens) :
    SamePlace source source' placed.position placed'.position
  | textEnd : SamePlace source source' source.textEnd source'.textEnd

/-- Errors with the same fault at the same place, of which the first one points at what the fault
speaks of. -/
structure SameFault (source source' : Source) (error error' : ParseError) : Prop where
  fault_eq : error.fault = error'.fault
  located : source.Located error
  samePlace : source.SamePlace source' error.position error'.position

/-- Assemblies with the same instructions at the same depth. -/
inductive Paired (source source' : Source) : Assembly → Assembly → Prop
  | mk (depth : Nat) (emitted : List Instruction) :
      Paired source source' ⟨source.vocabulary, source.textEnd, depth, emitted⟩
        ⟨source'.vocabulary, source'.textEnd, depth, emitted⟩

/-- What is left of both lists of tokens is alike and begins at the same place. -/
structure Left (source source' : Source) (tokens tokens' : List PlacedToken) : Prop where
  alike : Alike tokens tokens'
  suffix : tokens <:+ source.tokens
  together : tokens.zip tokens' <:+ source.tokens.zip source'.tokens

/-- Readings that have come to the same place: they have emitted the same instructions, and what is
left is alike. -/
structure Meets (source source' : Source) (read read' : Assembly × List PlacedToken) : Prop where
  paired : Paired source source' read.1 read'.1
  left : Left source source' read.2 read'.2

end Source

open Source

variable {source source' : Source} {assembly assembly' : Assembly}
  {tokens tokens' : List PlacedToken}

/-- In one list of tokens errors with the same fault at the same place are the same. -/
theorem Source.SameFault.eq_of_tokens_eq {vocabulary vocabulary' : Vocabulary} {textEnd : Nat}
    {error error' : ParseError}
    (h : SameFault ⟨vocabulary, textEnd, tokens⟩ ⟨vocabulary', textEnd, tokens⟩ error error') :
    error = error' := by
  obtain ⟨fault, position⟩ := error
  obtain ⟨fault', position'⟩ := error'
  obtain ⟨hfault, -, hplace⟩ := h
  have hposition : position = position' := by
    cases hplace with
    | textEnd => rfl
    | token h =>
      obtain ⟨index, hindex, hpair⟩ := List.mem_iff_getElem.mp h
      rw [List.getElem_zip] at hpair
      cases hpair
      rfl
  exact congr (congrArg ParseError.mk hfault) hposition

namespace Source.Paired

/-- The same instruction is emitted. -/
theorem emit (h : Paired source source' assembly assembly') (instruction : Instruction) :
    Paired source source' (assembly.emit instruction) (assembly'.emit instruction) := by
  cases h with
  | mk depth emitted => exact .mk depth (instruction :: emitted)

theorem ascend (h : Paired source source' assembly assembly') :
    Paired source source' assembly.ascend assembly'.ascend := by
  cases h with
  | mk depth emitted => exact .mk (depth - 1) emitted

theorem program_eq (h : Paired source source' assembly assembly') :
    assembly.program = assembly'.program := by
  cases h
  rfl

theorem textEnd_eq (h : Paired source source' assembly assembly') :
    assembly.textEnd = source.textEnd ∧ assembly'.textEnd = source'.textEnd := by
  cases h
  exact ⟨rfl, rfl⟩

/-- A nesting level is opened by both or by none. -/
theorem descend (h : Paired source source' assembly assembly') {position position' : Nat}
    (hplace : source.SamePlace source' position position')
    (hopens : ⟨.mark .openParen, position⟩ ∈ source.tokens ∨
      ⟨.mark .power, position⟩ ∈ source.tokens) :
    Agree (source.SameFault source') (Paired source source') (assembly.descend position)
      (assembly'.descend position') := by
  cases h with
  | mk depth emitted =>
    unfold Assembly.descend
    split
    · exact .error ⟨rfl, ⟨rfl, hopens⟩, hplace⟩
    · exact .ok (.mk (depth + 1) emitted)

/-- A call is emitted by both or by none if the vocabularies want the same of it. -/
theorem emitCall (h : Paired source source' assembly assembly') {name : String}
    {position position' : Nat} (hplace : source.SamePlace source' position position') (count : Nat)
    (hcalls : source.Calls name position)
    (harity : source.vocabulary.arity name = source'.vocabulary.arity name) :
    Agree (source.SameFault source') (Paired source source') (emitCall assembly name position count)
      (emitCall assembly' name position' count) := by
  cases h with
  | mk depth emitted =>
    unfold Grammar.emitCall
    dsimp only
    rw [← harity]
    split
    · exact .ok (.mk depth _)
    · rename_i hcount
      exact .error ⟨rfl, ⟨hcalls, rfl, hcount⟩, hplace⟩

end Source.Paired

namespace Source.Meets

/-- A further instruction is emitted. -/
theorem emit (h : Meets source source' (assembly, tokens) (assembly', tokens'))
    (instruction : Instruction) :
    Meets source source' (assembly.emit instruction, tokens)
      (assembly'.emit instruction, tokens') :=
  ⟨h.paired.emit instruction, h.left⟩

theorem alike (h : Meets source source' (assembly, tokens) (assembly', tokens')) :
    Alike tokens tokens' :=
  h.left.alike

/-- The first token of what is left is one of all the tokens. -/
theorem head_mem {placed : PlacedToken}
    (h : Meets source source' (assembly, placed :: tokens) (assembly', tokens')) :
    placed ∈ source.tokens :=
  h.left.suffix.subset (List.mem_cons_self ..)

/-- The first tokens of what is left stand at the same place. -/
theorem head_samePlace {placed placed' : PlacedToken}
    (h : Meets source source' (assembly, placed :: tokens) (assembly', placed' :: tokens')) :
    source.SamePlace source' placed.position placed'.position :=
  .token (h.left.together.subset (List.mem_cons_self ..))

/-- A token is passed over. -/
theorem step {token : Token} {position : Nat}
    (h : Meets source source' (assembly, ⟨token, position⟩ :: tokens) (assembly', tokens')) :
    ∃ position' rest', tokens' = ⟨token, position'⟩ :: rest' ∧
      Meets source source' (assembly, tokens) (assembly', rest') := by
  obtain ⟨position', rest', rfl, halike, -⟩ := h.alike.exists_cons
  exact ⟨position', rest', rfl, h.paired, halike, (List.suffix_cons _ _).trans h.left.suffix,
    (List.suffix_cons _ _).trans h.left.together⟩

end Source.Meets

/-! ### The rules correspond

The recursion is that of the grammar, on the tokens that are left in the first list.
-/

/-- A sign belongs to a number in both lists or in neither. -/
theorem readSigned_corresponds {sign : Mark} {position position' : Nat}
    (h : Meets source source' (assembly, tokens) (assembly', tokens'))
    (hplace : source.SamePlace source' position position')
    (hsign : ⟨.mark sign, position⟩ ∈ source.tokens)
    (htouches : touchesNumber position tokens = touchesNumber position' tokens') :
    Agree (source.SameFault source') (Meets source source')
      (readSigned assembly sign position tokens)
      (readSigned assembly' sign position' tokens') := by
  have herror : source.SameFault source' ⟨.unexpectedToken (String.singleton sign.symbol), position⟩
      ⟨.unexpectedToken (String.singleton sign.symbol), position'⟩ :=
    ⟨rfl, ⟨_, hsign, rfl⟩, hplace⟩
  match tokens with
  | [] =>
    obtain rfl := h.alike.eq_nil
    exact .error herror
  | ⟨.number value, start⟩ :: more =>
    obtain ⟨start', more', rfl, hstep⟩ := h.step
    have hstart : start = position + 1 ↔ start' = position' + 1 := by
      simpa [touchesNumber] using htouches
    unfold readSigned
    simp only [hstart]
    split
    · exact .ok (hstep.emit _)
    · exact .error herror
  | ⟨.name _, _⟩ :: more | ⟨.mark _, _⟩ :: more =>
    obtain ⟨start', more', rfl, hstep⟩ := h.step
    exact .error herror

/-- A bracket is closed in both lists or in neither. -/
theorem readClosing_corresponds {opening opening' : Nat}
    (h : Meets source source' (assembly, tokens) (assembly', tokens'))
    (hplace : source.SamePlace source' opening opening')
    (hopening : ⟨.mark .openParen, opening⟩ ∈ source.tokens) :
    Agree (source.SameFault source')
      (fun rest rest' ↦ Meets source source' (assembly, rest) (assembly', rest'))
      (readClosing opening tokens) (readClosing opening' tokens') := by
  match tokens with
  | [] =>
    obtain rfl := h.alike.eq_nil
    exact .error ⟨rfl, hopening, hplace⟩
  | ⟨token, start⟩ :: more =>
    obtain ⟨start', more', rfl, hstep⟩ := h.step
    cases token with
    | number | name => exact .error ⟨rfl, hopening, hplace⟩
    | mark sign =>
      cases sign with
      | closeParen => exact .ok hstep
      | _ => exact .error ⟨rfl, hopening, hplace⟩

mutual

/-- A sum is read alike from lists that are alike. -/
theorem readSum_corresponds (hcalls : source.CallsAgree source') {assembly assembly' : Assembly}
    {tokens tokens' : List PlacedToken}
    (h : Meets source source' (assembly, tokens) (assembly', tokens')) :
    Agree (source.SameFault source') (Meets source source') (readSum assembly tokens)
      (readSum assembly' tokens') := by
  rw [readSum_eq, readSum_eq]
  refine (readProduct_corresponds hcalls h).bind ?_
  rintro ⟨next, left⟩ ⟨next', left'⟩ hfirst hmeets
  have hshorter := length_lt_of_readProduct hfirst
  exact readFurtherTerms_corresponds hcalls hmeets
termination_by 7 * tokens.length + 5

/-- A sum goes on in both lists or in neither. -/
theorem readFurtherTerms_corresponds (hcalls : source.CallsAgree source')
    {assembly assembly' : Assembly} {tokens tokens' : List PlacedToken}
    (h : Meets source source' (assembly, tokens) (assembly', tokens')) :
    Agree (source.SameFault source') (Meets source source') (readFurtherTerms assembly tokens)
      (readFurtherTerms assembly' tokens') := by
  by_cases hsign : ∃ sign position more, tokens = ⟨.mark sign, position⟩ :: more ∧ sign.isAdditive
  · obtain ⟨sign, position, more, htokens, additive⟩ := hsign
    have hmore : more.length < tokens.length := by simp [htokens]
    rw [htokens] at h ⊢
    obtain ⟨position', more', rfl, hstep⟩ := h.step
    rw [readFurtherTerms_sign assembly additive, readFurtherTerms_sign assembly' additive]
    refine (readProduct_corresponds hcalls hstep).bind ?_
    rintro ⟨next, left⟩ ⟨next', left'⟩ hnext hmeets
    have hshorter := length_lt_of_readProduct hnext
    exact readFurtherTerms_corresponds hcalls (hmeets.emit _)
  · have hend : ∀ sign position more, tokens = ⟨.mark sign, position⟩ :: more →
        ¬sign.isAdditive := fun sign position more htokens additive ↦
      hsign ⟨sign, position, more, htokens, additive⟩
    rw [readFurtherTerms_end assembly hend,
      readFurtherTerms_end assembly' (h.alike.head_mark hend)]
    exact .ok h
termination_by 7 * tokens.length + 4

theorem readProduct_corresponds (hcalls : source.CallsAgree source')
    {assembly assembly' : Assembly} {tokens tokens' : List PlacedToken}
    (h : Meets source source' (assembly, tokens) (assembly', tokens')) :
    Agree (source.SameFault source') (Meets source source') (readProduct assembly tokens)
      (readProduct assembly' tokens') := by
  rw [readProduct_eq, readProduct_eq]
  refine (readPower_corresponds hcalls h).bind ?_
  rintro ⟨next, left⟩ ⟨next', left'⟩ hfirst hmeets
  have hshorter := length_lt_of_readPower hfirst
  exact readFurtherFactors_corresponds hcalls hmeets
termination_by 7 * tokens.length + 3

/-- A product goes on in both lists or in neither. -/
theorem readFurtherFactors_corresponds (hcalls : source.CallsAgree source')
    {assembly assembly' : Assembly} {tokens tokens' : List PlacedToken}
    (h : Meets source source' (assembly, tokens) (assembly', tokens')) :
    Agree (source.SameFault source') (Meets source source') (readFurtherFactors assembly tokens)
      (readFurtherFactors assembly' tokens') := by
  by_cases hsign : ∃ sign position more,
      tokens = ⟨.mark sign, position⟩ :: more ∧ sign.isMultiplicative
  · obtain ⟨sign, position, more, htokens, multiplicative⟩ := hsign
    have hmore : more.length < tokens.length := by simp [htokens]
    rw [htokens] at h ⊢
    obtain ⟨position', more', rfl, hstep⟩ := h.step
    rw [readFurtherFactors_sign assembly multiplicative,
      readFurtherFactors_sign assembly' multiplicative]
    refine (readPower_corresponds hcalls hstep).bind ?_
    rintro ⟨next, left⟩ ⟨next', left'⟩ hnext hmeets
    have hshorter := length_lt_of_readPower hnext
    exact readFurtherFactors_corresponds hcalls (hmeets.emit _)
  · have hend : ∀ sign position more, tokens = ⟨.mark sign, position⟩ :: more →
        ¬sign.isMultiplicative := fun sign position more htokens multiplicative ↦
      hsign ⟨sign, position, more, htokens, multiplicative⟩
    rw [readFurtherFactors_end assembly hend,
      readFurtherFactors_end assembly' (h.alike.head_mark hend)]
    exact .ok h
termination_by 7 * tokens.length + 2

theorem readPower_corresponds (hcalls : source.CallsAgree source')
    {assembly assembly' : Assembly} {tokens tokens' : List PlacedToken}
    (h : Meets source source' (assembly, tokens) (assembly', tokens')) :
    Agree (source.SameFault source') (Meets source source') (readPower assembly tokens)
      (readPower assembly' tokens') := by
  rw [readPower_eq, readPower_eq]
  refine (readOperand_corresponds hcalls h).bind ?_
  rintro ⟨next, left⟩ ⟨next', left'⟩ hbase hmeets
  have hshorter := length_lt_of_readOperand hbase
  exact readExponent_corresponds hcalls hmeets
termination_by 7 * tokens.length + 2

/-- A power follows in both lists or in neither, and both may open its level or neither may. -/
theorem readExponent_corresponds (hcalls : source.CallsAgree source')
    {assembly assembly' : Assembly} {tokens tokens' : List PlacedToken}
    (h : Meets source source' (assembly, tokens) (assembly', tokens')) :
    Agree (source.SameFault source') (Meets source source') (readExponent assembly tokens)
      (readExponent assembly' tokens') := by
  by_cases hpower : ∃ position more, tokens = ⟨.mark .power, position⟩ :: more
  · obtain ⟨position, more, htokens⟩ := hpower
    have hmore : more.length < tokens.length := by simp [htokens]
    rw [htokens] at h ⊢
    obtain ⟨position', more', rfl, hstep⟩ := h.step
    rw [readExponent, readExponent]
    refine (hstep.paired.descend h.head_samePlace (Or.inr h.head_mem)).bind
      fun deeper deeper' _ hdeeper ↦ ?_
    refine (readPower_corresponds hcalls ⟨hdeeper, hstep.left⟩).bind ?_
    rintro ⟨next, left⟩ ⟨next', left'⟩ - hmeets
    exact .ok ⟨hmeets.paired.ascend.emit _, hmeets.left⟩
  · have hend : ∀ sign position more, tokens = ⟨.mark sign, position⟩ :: more → sign ≠ .power := by
      rintro sign position more htokens rfl
      exact hpower ⟨position, more, htokens⟩
    rw [readExponent_end assembly fun position more htokens ↦ hend _ position more htokens rfl,
      readExponent_end assembly' fun position more htokens ↦
        h.alike.head_mark hend _ position more htokens rfl]
    exact .ok h
termination_by 7 * tokens.length + 2

theorem readOperand_corresponds (hcalls : source.CallsAgree source')
    {assembly assembly' : Assembly} {tokens tokens' : List PlacedToken}
    (h : Meets source source' (assembly, tokens) (assembly', tokens')) :
    Agree (source.SameFault source') (Meets source source') (readOperand assembly tokens)
      (readOperand assembly' tokens') := by
  by_cases hminus : ∃ position more, tokens = ⟨.mark .minus, position⟩ :: more
  · obtain ⟨position, more, htokens⟩ := hminus
    have hmore : more.length < tokens.length := by simp [htokens]
    rw [htokens] at h ⊢
    obtain ⟨position', more', rfl, hstep⟩ := h.step
    rw [readOperand_minus, readOperand_minus]
    refine (readPrimary_corresponds hcalls hstep).bind ?_
    rintro ⟨next, left⟩ ⟨next', left'⟩ - hmeets
    exact .ok (hmeets.emit .negate)
  · have hend : ∀ sign position more, tokens = ⟨.mark sign, position⟩ :: more → sign ≠ .minus := by
      rintro sign position more htokens rfl
      exact hminus ⟨position, more, htokens⟩
    rw [readOperand_unsigned assembly fun position more htokens ↦ hend _ position more htokens rfl,
      readOperand_unsigned assembly' fun position more htokens ↦
        h.alike.head_mark hend _ position more htokens rfl]
    exact readPrimary_corresponds hcalls h
termination_by 7 * tokens.length + 1

/-- A primary is of the same kind in both lists, which the first tokens decide. -/
theorem readPrimary_corresponds (hcalls : source.CallsAgree source')
    {assembly assembly' : Assembly} {tokens tokens' : List PlacedToken}
    (h : Meets source source' (assembly, tokens) (assembly', tokens')) :
    Agree (source.SameFault source') (Meets source source') (readPrimary assembly tokens)
      (readPrimary assembly' tokens') := by
  match tokens with
  | [] =>
    obtain rfl := h.alike.eq_nil
    rw [readPrimary_nil, readPrimary_nil]
    rw [h.paired.textEnd_eq.1, h.paired.textEnd_eq.2]
    exact .error ⟨rfl, rfl, .textEnd⟩
  | ⟨.number value, position⟩ :: more =>
    obtain ⟨position', more', rfl, hstep⟩ := h.step
    rw [readPrimary_number, readPrimary_number]
    exact .ok (hstep.emit _)
  | ⟨.name name, position⟩ :: more =>
    obtain ⟨position', more', rfl, hstep⟩ := h.step
    by_cases hcall : ∃ opening inside, more = ⟨.mark .openParen, opening⟩ :: inside
    · obtain ⟨opening, inside, rfl⟩ := hcall
      obtain ⟨opening', inside', rfl, hinside⟩ := hstep.step
      rw [readPrimary_call, readPrimary_call]
      refine (hinside.paired.descend hstep.head_samePlace (Or.inl hstep.head_mem)).bind
        fun deeper deeper' _ hdeeper ↦ ?_
      refine (readArguments_corresponds hcalls ⟨hdeeper, hinside.left⟩ hstep.head_samePlace
        hstep.head_mem 1).bind ?_
      rintro ⟨count, inner, rest⟩ ⟨count', inner', rest'⟩ - ⟨hcount, hmeets⟩
      obtain rfl : count = count' := hcount
      have hcalled : source.Calls name position := by
        obtain ⟨before, hbefore⟩ := h.left.suffix
        exact ⟨opening, before, inside, by simpa using hbefore⟩
      refine (hmeets.paired.ascend.emitCall h.head_samePlace count hcalled
        (hcalls name position hcalled)).bind fun called called' _ hpaired ↦ ?_
      exact .ok ⟨hpaired, hmeets.left⟩
    · have hplain : ∀ sign opening rest, more = ⟨.mark sign, opening⟩ :: rest →
          sign ≠ .openParen := by
        rintro sign opening rest hmore rfl
        exact hcall ⟨opening, rest, hmore⟩
      rw [readPrimary_name assembly name position fun opening rest hmore ↦
          hplain _ opening rest hmore rfl,
        readPrimary_name assembly' name position' fun opening rest hmore ↦
          hstep.alike.head_mark hplain _ opening rest hmore rfl]
      exact .ok (hstep.emit _)
  | ⟨.mark sign, position⟩ :: more =>
    obtain ⟨position', more', rfl, hstep⟩ := h.step
    by_cases hsign : sign.isAdditive
    · rw [readPrimary_sign assembly hsign, readPrimary_sign assembly' hsign]
      obtain ⟨_, _, heq, -, htouches⟩ := h.alike.exists_cons
      cases heq
      exact readSigned_corresponds hstep h.head_samePlace h.head_mem (htouches sign rfl hsign)
    · by_cases hopen : sign = .openParen
      · obtain rfl := hopen
        rw [readPrimary_group, readPrimary_group]
        refine (hstep.paired.descend h.head_samePlace (Or.inl h.head_mem)).bind
          fun deeper deeper' _ hdeeper ↦ ?_
        refine (readSum_corresponds hcalls ⟨hdeeper, hstep.left⟩).bind ?_
        rintro ⟨inner, left⟩ ⟨inner', left'⟩ - hmeets
        refine (readClosing_corresponds hmeets h.head_samePlace h.head_mem).bind
          fun rest rest' _ hrest ↦ ?_
        exact .ok ⟨hrest.paired.ascend, hrest.left⟩
      · rw [readPrimary_mark assembly (by simpa using hsign) hopen,
          readPrimary_mark assembly' (by simpa using hsign) hopen]
        exact .error ⟨rfl, ⟨_, h.head_mem, rfl⟩, h.head_samePlace⟩
termination_by 7 * tokens.length + 0

/-- The arguments of a call are as many in both lists. -/
theorem readArguments_corresponds (hcalls : source.CallsAgree source')
    {assembly assembly' : Assembly} {tokens tokens' : List PlacedToken} {opening opening' : Nat}
    (h : Meets source source' (assembly, tokens) (assembly', tokens'))
    (hplace : source.SamePlace source' opening opening')
    (hopening : ⟨.mark .openParen, opening⟩ ∈ source.tokens) (count : Nat) :
    Agree (source.SameFault source')
      (fun read read' ↦ read.1 = read'.1 ∧ Meets source source' read.2 read'.2)
      (readArguments assembly tokens opening count)
      (readArguments assembly' tokens' opening' count) := by
  rw [readArguments_eq, readArguments_eq]
  refine (readSum_corresponds hcalls h).bind ?_
  rintro ⟨next, left⟩ ⟨next', left'⟩ hargument hmeets
  have hshorter := length_lt_of_readSum hargument
  change Agree _ _ (readFurtherArguments next opening count left)
    (readFurtherArguments next' opening' count left')
  match left with
  | [] =>
    obtain rfl := hmeets.alike.eq_nil
    exact .error ⟨rfl, hopening, hplace⟩
  | ⟨token, start⟩ :: more =>
    obtain ⟨start', more', rfl, hstep⟩ := hmeets.step
    cases token with
    | number | name => exact .error ⟨rfl, hopening, hplace⟩
    | mark sign =>
      cases sign with
      | comma =>
        have hmore : more.length < tokens.length := Nat.lt_of_succ_lt hshorter
        exact readArguments_corresponds hcalls hstep hplace hopening (count + 1)
      | closeParen => exact .ok ⟨rfl, hstep⟩
      | _ => exact .error ⟨rfl, hopening, hplace⟩
termination_by 7 * tokens.length + 6

end

end Grammar

namespace Program

open Grammar Grammar.Source

/-- Lists of tokens that are alike write the same program or have the same fault, which the first
error locates. -/
theorem ofTokens_corresponds {source source' : Source} (hcalls : source.CallsAgree source')
    (halike : Alike source.tokens source'.tokens) :
    Agree (source.SameFault source') Eq (ofTokens source.vocabulary source.textEnd source.tokens)
      (ofTokens source'.vocabulary source'.textEnd source'.tokens) := by
  obtain ⟨vocabulary, textEnd, tokens⟩ := source
  obtain ⟨vocabulary', textEnd', tokens'⟩ := source'
  cases halike with
  | nil => exact .error ⟨rfl, ⟨rfl, rfl⟩, .textEnd⟩
  | cons touches rest =>
    dsimp only
    rw [ofTokens_eq vocabulary textEnd (List.cons_ne_nil _ _),
      ofTokens_eq vocabulary' textEnd' (List.cons_ne_nil _ _)]
    refine (readSum_corresponds hcalls
      ⟨.mk 0 [], .cons touches rest, List.suffix_rfl, List.suffix_rfl⟩).bind ?_
    rintro ⟨assembly, left⟩ ⟨assembly', left'⟩ - hmeets
    match left with
    | [] =>
      obtain rfl := hmeets.alike.eq_nil
      exact .ok hmeets.paired.program_eq
    | ⟨token, position⟩ :: more =>
      obtain ⟨position', more', rfl, -⟩ := hmeets.step
      exact .error ⟨rfl, ⟨token, hmeets.head_mem, rfl⟩, hmeets.head_samePlace⟩

/-- Lists of the same tokens at the same positions write the same program or have the same error if
the vocabularies want the same of every call. -/
theorem ofTokens_congr {vocabulary vocabulary' : Vocabulary} {textEnd : Nat}
    {tokens : List PlacedToken}
    (h : Source.CallsAgree ⟨vocabulary, textEnd, tokens⟩ ⟨vocabulary', textEnd, tokens⟩) :
    ofTokens vocabulary textEnd tokens = ofTokens vocabulary' textEnd tokens := by
  have hagree := ofTokens_corresponds h (.refl tokens)
  have hsame := hagree.mono (fun _ _ hfault ↦ hfault.eq_of_tokens_eq) fun _ _ hprogram ↦ hprogram
  exact hsame.eq

end Program

end BeamCalc
