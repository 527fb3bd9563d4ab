import BeamCalc.Proofs.Evaluation.Postfix
import BeamCalc.Proofs.Grammar.Derivation

/-!
# What phrases emit

The instructions that a phrase with fitting calls emits are in postfix order (`emitsPostfix`): the
further parts of a sum or of a product continue the expression before them, arguments are one
expression each, and everything else is one expression. The operators among them are marks of the
grammar. Both are then said of the programs that tokens write.
-/

set_option autoImplicit false
set_option relaxedAutoImplicit false

namespace BeamCalc

namespace Mark

variable {sign : Mark}

theorem isOperator_of_isAdditive (h : sign.isAdditive) : sign.isOperator := by
  cases sign with
  | plus | minus => rfl
  | _ => cases h

theorem isOperator_of_isMultiplicative (h : sign.isMultiplicative) : sign.isOperator := by
  cases sign with
  | times | divide => rfl
  | _ => cases h

end Mark

/-- A consistent vocabulary knows every operator. -/
theorem Vocabulary.IsConsistent.exists_operator {vocabulary : Vocabulary}
    (h : vocabulary.IsConsistent) {sign : Mark} (hsign : sign.isOperator) :
    ∃ meaning, vocabulary.operator sign.symbol = some meaning := by
  rw [h.operator_eq, ← Option.isSome_iff_exists]
  cases sign with
  | plus | minus | times | divide | power => decide
  | openParen | closeParen | comma => cases hsign

namespace Grammar.Phrase

variable {vocabulary : Vocabulary}

/-- What the emission of a phrase is. -/
def EmitsPostfix (vocabulary : Vocabulary) : {rule : Rule} → Phrase rule → Prop
  | .furtherTerms, phrase | .furtherFactors, phrase =>
    ∀ earlier, Postfix vocabulary earlier → Postfix vocabulary (earlier ++ phrase.emission)
  | .arguments, phrase =>
    ∃ blocks : List (List Instruction), blocks.flatten = phrase.emission ∧
      blocks.length = phrase.count ∧ ∀ block ∈ blocks, Postfix vocabulary block
  | _, phrase => Postfix vocabulary phrase.emission

/-- A further operand of an operator, and what continues the expression after it. -/
theorem postfix_continued {symbol : Char} {earlier next others : List Instruction}
    (hearlier : Postfix vocabulary earlier) (hnext : Postfix vocabulary next)
    (hothers : ∀ earlier, Postfix vocabulary earlier → Postfix vocabulary (earlier ++ others)) :
    Postfix vocabulary (earlier ++ (next ++ .operator symbol :: others)) := by
  have hjoined : Postfix vocabulary (earlier ++ (next ++ [.operator symbol])) :=
    .binary rfl hearlier hnext
  have hall := hothers _ hjoined
  simp only [List.append_assoc, List.singleton_append] at hall
  exact hall

/-- A phrase with fitting calls emits instructions in postfix order. -/
theorem emitsPostfix {rule : Rule} (phrase : Phrase rule) (hfits : phrase.CallsFit vocabulary) :
    phrase.EmitsPostfix vocabulary := by
  induction phrase with
  | sum first others ihfirst ihothers => exact ihothers hfits.2 _ (ihfirst hfits.1)
  | noTerm =>
    intro earlier hearlier
    rwa [emission, List.append_nil]
  | term sign additive position next others ihnext ihothers =>
    intro earlier hearlier
    exact postfix_continued hearlier (ihnext hfits.1) (ihothers hfits.2)
  | product first others ihfirst ihothers => exact ihothers hfits.2 _ (ihfirst hfits.1)
  | noFactor =>
    intro earlier hearlier
    rwa [emission, List.append_nil]
  | factor sign multiplicative position next others ihnext ihothers =>
    intro earlier hearlier
    exact postfix_continued hearlier (ihnext hfits.1) (ihothers hfits.2)
  | unraised base ih => exact ih hfits
  | raised base position exponent ihbase ihexponent =>
    exact .binary rfl (ihbase hfits.1) (ihexponent hfits.2)
  | unsigned inner ih => exact ih hfits
  | negated position inner ih => exact .unary rfl (ih hfits)
  | bare inner ih => exact ih hfits
  | negative position value => exact .operand rfl
  | number position value => exact .operand rfl
  | positive position value => exact .operand rfl
  | named position name => exact .operand rfl
  | call position name opening arguments closing ih =>
    obtain ⟨hinner, hcount⟩ := hfits
    obtain ⟨blocks, hflatten, hlength, hblocks⟩ := ih hinner
    -- As many blocks of instructions stand before a call as it takes operands.
    change Postfix vocabulary (arguments.emission ++ [.function name])
    rw [← hflatten]
    exact .join (hlength.trans hcount) hblocks
  | group opening inner closing ih => exact ih hfits
  | last argument ih =>
    refine ⟨[argument.emission], ?_, ?_, ?_⟩
    · rw [List.flatten_singleton, emission]
    · rw [List.length_singleton, count]
    · intro block hblock
      rw [List.mem_singleton.mp hblock]
      exact ih hfits
  | further argument comma others ihargument ihothers =>
    obtain ⟨blocks, hflatten, hlength, hblocks⟩ := ihothers hfits.2
    refine ⟨argument.emission :: blocks, ?_, ?_, ?_⟩
    · rw [List.flatten_cons, hflatten, emission]
    · rw [List.length_cons, hlength, count]
    · intro block hblock
      rcases List.mem_cons.mp hblock with rfl | hblock
      · exact ihargument hfits.1
      · exact hblocks block hblock

/-- The operators that a phrase emits are marks between operands. -/
theorem isOperator_of_mem_emission {rule : Rule} {phrase : Phrase rule} {symbol : Char}
    (h : .operator symbol ∈ phrase.emission) :
    ∃ sign : Mark, sign.isOperator ∧ sign.symbol = symbol := by
  induction phrase with
  | noTerm | noFactor | negative | number | positive | named => simp [emission] at h
  | unraised | unsigned | bare | group | last =>
    rename_i ih
    exact ih h
  | sum _ _ ihfirst ihothers | product _ _ ihfirst ihothers | further _ _ _ ihfirst ihothers =>
    rcases List.mem_append.mp h with h | h
    · exact ihfirst h
    · exact ihothers h
  | term sign additive _ next others ihnext ihothers =>
    rcases List.mem_append.mp h with h | h
    · exact ihnext h
    · rcases List.mem_cons.mp h with h | h
      · exact ⟨sign, Mark.isOperator_of_isAdditive additive, (Instruction.operator.inj h).symm⟩
      · exact ihothers h
  | factor sign multiplicative _ next others ihnext ihothers =>
    rcases List.mem_append.mp h with h | h
    · exact ihnext h
    · rcases List.mem_cons.mp h with h | h
      · exact ⟨sign, Mark.isOperator_of_isMultiplicative multiplicative,
          (Instruction.operator.inj h).symm⟩
      · exact ihothers h
  | raised base position exponent ihbase ihexponent =>
    rcases List.mem_append.mp h with h | h
    · exact ihbase h
    · rcases List.mem_append.mp h with h | h
      · exact ihexponent h
      · exact ⟨.power, rfl, (Instruction.operator.inj (List.mem_singleton.mp h)).symm⟩
  | negated position inner ih =>
    rcases List.mem_append.mp h with h | h
    · exact ih h
    · cases List.mem_singleton.mp h
  | call position name opening arguments closing ih =>
    rcases List.mem_append.mp h with h | h
    · exact ih h
    · cases List.mem_singleton.mp h

end Grammar.Phrase

namespace Program

variable {vocabulary : Vocabulary} {text : String} {program : Program}

/-- The program of a text is in postfix order. -/
theorem postfix_of_ofText (h : ofText vocabulary text = .ok program) :
    Postfix vocabulary program.instructions := by
  obtain ⟨phrase, -, hfits, -, hemission⟩ := ofText_eq_ok_iff.mp h
  rw [← hemission]
  exact phrase.emitsPostfix hfits

/-- The operators of the program of a text are marks between operands. -/
theorem isOperator_of_ofText (h : ofText vocabulary text = .ok program) {symbol : Char}
    (hsymbol : .operator symbol ∈ program.instructions) :
    ∃ sign : Mark, sign.isOperator ∧ sign.symbol = symbol := by
  obtain ⟨phrase, -, -, -, hemission⟩ := ofText_eq_ok_iff.mp h
  rw [← hemission] at hsymbol
  exact Grammar.Phrase.isOperator_of_mem_emission hsymbol

end Program

end BeamCalc
