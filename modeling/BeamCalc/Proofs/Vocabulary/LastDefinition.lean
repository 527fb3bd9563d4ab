import BeamCalc.Proofs.Evaluation.OperandStack
import BeamCalc.Proofs.Grammar.Derivation
import BeamCalc.Proofs.Grammar.Placement
import BeamCalc.Proofs.Vocabulary.Extension

/-!
# What the last definition of a name says

A vocabulary that is built by definitions answers for each name by the last definition of it, or as
the standard vocabulary does if there is none. Constants and functions are asked for separately, so
`IsLast` distinguishes the two kinds of name; functions of one argument and of two are one kind,
because the definition of one removes the other.

A name is therefore a function of one number of arguments. The grammar and the evaluation look that
number up in different ways and find the same: a call is accepted with as many arguments
(`Program.ofTokens_call_iff`) as the evaluation of its function takes operands
(`Vocabulary.IsConsistent.takesOperands`).
-/

set_option autoImplicit false
set_option relaxedAutoImplicit false

namespace BeamCalc

namespace Vocabulary

/-! ### Definitions of a name -/

/-- The kinds of name that an expression tells apart. -/
inductive Kind where
  | constant
  | function
  deriving Repr, DecidableEq

/-- A definition gives the name a meaning as a name of the kind. -/
inductive Definition.Defines : Definition → Kind → String → Prop where
  | constant {name : String} {value : Float} : Defines (.constant name value) .constant name
  | unary {name : String} {meaning : Float → Float} : Defines (.unary name meaning) .function name
  | binary {name : String} {meaning : Float → Float → Float} :
    Defines (.binary name meaning) .function name

/-- The last one of the definitions of a name as a name of the kind. -/
def IsLast (definitions : List Definition) (kind : Kind) (name : String)
    (definition : Definition) : Prop :=
  ∃ before after, definitions = before ++ definition :: after ∧ definition.Defines kind name ∧
    ∀ later ∈ after, ¬later.Defines kind name

variable {vocabulary : Vocabulary} {definitions : List Definition} {kind : Kind} {name : String}
  {definition : Definition}

/-- The meaning of a constant changes only where it is defined. -/
theorem constant_define_of_not_defines (h : ¬definition.Defines .constant name) :
    (vocabulary.define definition).constant name = vocabulary.constant name := by
  cases definition with
  | constant other value =>
    have hname : name ≠ other := fun hname ↦ h (hname ▸ .constant)
    exact Table.set_other _ _ hname
  | unary | binary => rfl

/-- The meanings of a function change only where it is defined. -/
theorem function_define_of_not_defines (vocabulary : Vocabulary)
    (h : ¬definition.Defines .function name) :
    (vocabulary.define definition).unary name = vocabulary.unary name ∧
      (vocabulary.define definition).binary name = vocabulary.binary name := by
  cases definition with
  | constant => exact ⟨rfl, rfl⟩
  | unary other meaning =>
    have hname : name ≠ other := fun hname ↦ h (hname ▸ .unary)
    exact ⟨Table.set_other _ _ hname, Table.set_other _ _ hname⟩
  | binary other meaning =>
    have hname : name ≠ other := fun hname ↦ h (hname ▸ .binary)
    exact ⟨Table.set_other _ _ hname, Table.set_other _ _ hname⟩

theorem constant_defineAll_of_not_defines
    (h : ∀ definition ∈ definitions, ¬definition.Defines .constant name) :
    (vocabulary.defineAll definitions).constant name = vocabulary.constant name := by
  induction definitions generalizing vocabulary with
  | nil => rfl
  | cons first others ih =>
    have hothers := @ih (vocabulary.define first) fun definition hdefinition ↦
      h definition (List.mem_cons_of_mem _ hdefinition)
    exact hothers.trans (constant_define_of_not_defines (h first List.mem_cons_self))

theorem function_defineAll_of_not_defines (vocabulary : Vocabulary)
    (h : ∀ definition ∈ definitions, ¬definition.Defines .function name) :
    (vocabulary.defineAll definitions).unary name = vocabulary.unary name ∧
      (vocabulary.defineAll definitions).binary name = vocabulary.binary name := by
  induction definitions generalizing vocabulary with
  | nil => exact ⟨rfl, rfl⟩
  | cons first others ih =>
    obtain ⟨hunary, hbinary⟩ := ih (vocabulary.define first)
      fun definition hdefinition ↦ h definition (List.mem_cons_of_mem _ hdefinition)
    obtain ⟨hunary', hbinary'⟩ :=
      function_define_of_not_defines vocabulary (h first List.mem_cons_self)
    exact ⟨hunary.trans hunary', hbinary.trans hbinary'⟩

/-- Definitions one after the other. -/
theorem defineAll_append_cons (vocabulary : Vocabulary) (before after : List Definition)
    (definition : Definition) :
    vocabulary.defineAll (before ++ definition :: after) =
      ((vocabulary.defineAll before).define definition).defineAll after := by
  rw [defineAll, List.foldl_append]
  rfl

/-- A constant has the value of its last definition. -/
theorem IsLast.constant_eq {value : Float}
    (h : IsLast definitions .constant name (.constant name value)) :
    (vocabulary.defineAll definitions).constant name = some value := by
  obtain ⟨before, after, rfl, -, hafter⟩ := h
  rw [defineAll_append_cons, constant_defineAll_of_not_defines hafter]
  exact Table.set_same _ _ _

/-- A function that was last defined with one argument has that meaning and no other. -/
theorem IsLast.unary_eq {meaning : Float → Float}
    (h : IsLast definitions .function name (.unary name meaning)) :
    (vocabulary.defineAll definitions).unary name = some meaning ∧
      (vocabulary.defineAll definitions).binary name = none := by
  obtain ⟨before, after, rfl, -, hafter⟩ := h
  rw [defineAll_append_cons]
  obtain ⟨hunary, hbinary⟩ := function_defineAll_of_not_defines
    ((vocabulary.defineAll before).define (.unary name meaning)) hafter
  rw [hunary, hbinary]
  exact ⟨Table.set_same _ _ _, Table.set_same _ _ _⟩

/-- A function that was last defined with two arguments has that meaning and no other. -/
theorem IsLast.binary_eq {meaning : Float → Float → Float}
    (h : IsLast definitions .function name (.binary name meaning)) :
    (vocabulary.defineAll definitions).unary name = none ∧
      (vocabulary.defineAll definitions).binary name = some meaning := by
  obtain ⟨before, after, rfl, -, hafter⟩ := h
  rw [defineAll_append_cons]
  obtain ⟨hunary, hbinary⟩ := function_defineAll_of_not_defines
    ((vocabulary.defineAll before).define (.binary name meaning)) hafter
  rw [hunary, hbinary]
  exact ⟨Table.set_same _ _ _, Table.set_same _ _ _⟩

end Vocabulary

/-! ### Operands and arguments -/

namespace Setting

/-- Evaluates as many operands at the end of a program as are wanted, the last one first. The answer
is their values, in the order of the program, and the instructions before them. -/
def takeMany (setting : Setting) :
    (wanted : Nat) → List Instruction → Attempt (List Float × List Instruction)
  | 0, backward => return ([], backward)
  | wanted + 1, backward => do
    let (last, rest) ← setting.take backward
    let (others, rest) ← setting.takeMany wanted rest
    return (others ++ [last], rest)

/-- The evaluation of an instruction takes so many operands from the instructions before it. -/
def TakesOperands (setting : Setting) (instruction : Instruction) (count : Nat) : Prop :=
  ∃ operation : List Float → Float, ∀ earlier,
    setting.take (instruction :: earlier) =
      setting.takeMany count earlier >>= fun (operands, rest) ↦ pure (operation operands, rest)

variable {setting : Setting} {instruction : Instruction}

/-- An operation on one operand takes one. -/
theorem takesOperands_one {operation : Float → Float}
    (h : setting.contribution instruction = .operation (.unary operation)) :
    setting.TakesOperands instruction 1 := by
  refine ⟨fun operands ↦ operation (operands.headD 0), fun earlier ↦ ?_⟩
  rw [take_unary earlier h]
  simp [takeMany]

/-- An operation on two operands takes two. -/
theorem takesOperands_two {operation : Float → Float → Float}
    (h : setting.contribution instruction = .operation (.binary operation)) :
    setting.TakesOperands instruction 2 := by
  refine ⟨fun operands ↦ operation (operands.headD 0) (operands.getLastD 0), fun earlier ↦ ?_⟩
  rw [take_binary earlier h]
  simp [takeMany]

end Setting

/-- The evaluation of a function takes as many operands as a call of it has arguments. -/
theorem Vocabulary.IsConsistent.takesOperands {setting : Setting}
    (h : setting.vocabulary.IsConsistent) {name : String}
    (hknown : setting.vocabulary.unary name ≠ none ∨ setting.vocabulary.binary name ≠ none) :
    setting.TakesOperands (.function name) (setting.vocabulary.arity name) := by
  rcases arity_eq_one_or_two setting.vocabulary name with harity | harity
  · rw [harity]
    have hbinary := binary_eq_none_of_arity_eq_one harity
    obtain ⟨meaning, hunary⟩ := Option.ne_none_iff_exists'.mp
      (hknown.resolve_right fun hnot ↦ hnot hbinary)
    have hoperation : setting.contribution (.function name) = .operation (.unary meaning) := by
      simp only [Setting.contribution, hunary]
    exact Setting.takesOperands_one hoperation
  · rw [harity]
    obtain ⟨hunary, meaning, hbinary⟩ := h.of_arity_eq_two harity
    have hoperation : setting.contribution (.function name) = .operation (.binary meaning) := by
      simp only [Setting.contribution, hunary, hbinary]
    exact Setting.takesOperands_two hoperation

namespace Program

open Grammar

/-- A call that stays within the nesting limit, with arguments that are programs, is a program
exactly if it has the number of arguments that the vocabulary wants. -/
theorem ofTokens_call_iff {vocabulary : Vocabulary} {arguments : Phrase .arguments}
    (hfits : arguments.CallsFit vocabulary) (hdepth : arguments.depth < nestingLimit)
    (textEnd position opening closing : Nat) (name : String) :
    (∃ program, ofTokens vocabulary textEnd
        (Phrase.call position name opening arguments closing).tokens = .ok program) ↔
      arguments.count = vocabulary.arity name := by
  let call := Phrase.call position name opening arguments closing
  have htokens : (Phrase.ofOperand (.unsigned call)).tokens = call.tokens := by
    rw [Phrase.tokens_ofOperand, Phrase.tokens]
  constructor
  · rintro ⟨program, hprogram⟩
    obtain ⟨phrase, hphrase, hcalls, -, -⟩ := ofTokens_eq_ok_iff.mp hprogram
    obtain rfl := Phrase.tokens_injective (hphrase.trans htokens.symm)
    rw [Phrase.callsFit_ofOperand, Phrase.CallsFit, Phrase.CallsFit] at hcalls
    exact hcalls.2
  · intro hcount
    refine ⟨⟨_⟩, ofTokens_eq_ok_iff.mpr ⟨_, htokens, ?_, ?_, rfl⟩⟩
    · rw [Phrase.callsFit_ofOperand, Phrase.CallsFit, Phrase.CallsFit]
      exact ⟨hfits, hcount⟩
    · rw [Phrase.depth_ofOperand, Phrase.depth, Phrase.depth]
      exact hdepth

end Program

namespace Vocabulary

/-- What a vocabulary that is built by definitions says of a name. It is no function both of one
argument and of two; as a constant and as a function it is what its last definition of that kind
says, or what it is in the standard vocabulary if there is none; the operators are the standard
ones. As many arguments as a call of a function has to have, so many operands the evaluation of the
function takes. -/
theorem lookup_defineAll_standard (definitions : List Definition) (name : String) :
    let vocabulary := standard.defineAll definitions
    (vocabulary.unary name = none ∨ vocabulary.binary name = none) ∧
    ((∀ value, IsLast definitions .constant name (.constant name value) →
        vocabulary.constant name = some value) ∧
      ((∀ definition ∈ definitions, ¬definition.Defines .constant name) →
        vocabulary.constant name = standard.constant name)) ∧
    ((∀ meaning, IsLast definitions .function name (.unary name meaning) →
        vocabulary.unary name = some meaning ∧ vocabulary.binary name = none) ∧
      (∀ meaning, IsLast definitions .function name (.binary name meaning) →
        vocabulary.unary name = none ∧ vocabulary.binary name = some meaning) ∧
      ((∀ definition ∈ definitions, ¬definition.Defines .function name) →
        vocabulary.unary name = standard.unary name ∧
          vocabulary.binary name = standard.binary name)) ∧
    vocabulary.operator = standard.operator ∧
    (vocabulary.unary name ≠ none ∨ vocabulary.binary name ≠ none →
      (∀ policy values, Setting.TakesOperands ⟨vocabulary, policy, values⟩ (.function name)
        (vocabulary.arity name)) ∧
      ∀ arguments : Grammar.Phrase .arguments, arguments.CallsFit vocabulary →
        arguments.depth < nestingLimit → ∀ textEnd position opening closing,
          (∃ program, Program.ofTokens vocabulary textEnd
            (Grammar.Phrase.call position name opening arguments closing).tokens = .ok program) ↔
              arguments.count = vocabulary.arity name) := by
  intro vocabulary
  have hconsistent : vocabulary.IsConsistent := isConsistent_standard.defineAll definitions
  refine ⟨hconsistent.apart name, ⟨fun value hlast ↦ hlast.constant_eq, ?_⟩,
    ⟨fun meaning hlast ↦ hlast.unary_eq, fun meaning hlast ↦ hlast.binary_eq, ?_⟩,
    hconsistent.operator_eq, ?_⟩
  · exact constant_defineAll_of_not_defines
  · exact function_defineAll_of_not_defines standard
  · intro hknown
    refine ⟨fun policy values ↦ ?_, ?_⟩
    · have hsetting : (Setting.mk vocabulary policy values).vocabulary.IsConsistent := hconsistent
      exact hsetting.takesOperands hknown
    · intro arguments hfits hdepth textEnd position opening closing
      exact Program.ofTokens_call_iff hfits hdepth textEnd position opening closing name

/-- Defined with one argument after two, a function has one. A constant of the same name stays as it
is. -/
theorem lookup_defineAll_standard_redefined :
    let definitions := [.constant "twist" 9, .binary "twist" Float.pow, .unary "twist" Float.exp]
    let vocabulary := standard.defineAll definitions
    vocabulary.constant "twist" = some 9 ∧ vocabulary.constant "pi" = some pi ∧
      vocabulary.unary "twist" = some Float.exp ∧ vocabulary.binary "twist" = none ∧
      vocabulary.binary "max" = some greater ∧
      Setting.TakesOperands ⟨vocabulary, {}, fun _ ↦ none⟩ (.function "twist") 1 ∧
      ∃ program, Program.ofTokens vocabulary 8 [⟨.name "twist", 0⟩, ⟨.mark .openParen, 5⟩,
        ⟨.name "x", 6⟩, ⟨.mark .closeParen, 7⟩] = .ok program := by
  intro definitions vocabulary
  have hconstant : IsLast definitions .constant "twist" (.constant "twist" 9) :=
    ⟨[], _, rfl, .constant, by rintro _ (_ | ⟨_, _ | ⟨_, ⟨⟩⟩⟩) ⟨⟩⟩
  have hunary : IsLast definitions .function "twist" (.unary "twist" Float.exp) :=
    ⟨[.constant "twist" 9, .binary "twist" Float.pow], [], rfl, .unary, fun _ h ↦ nomatch h⟩
  have hnone : ∀ kind, ∀ name ∈ ["pi", "max"], ∀ definition ∈ definitions,
      ¬definition.Defines kind name := by
    intro kind name hname definition hdefinition hdefines
    have htwist : name = "twist" := by
      simp only [definitions, List.mem_cons, List.not_mem_nil, or_false] at hdefinition
      rcases hdefinition with rfl | rfl | rfl <;> cases hdefines <;> rfl
    rw [htwist] at hname
    exact absurd hname (by decide)
  obtain ⟨-, ⟨hvalue, -⟩, ⟨hmeaning, -⟩, -, hcall⟩ := lookup_defineAll_standard definitions "twist"
  obtain ⟨-, ⟨-, hpi⟩, -⟩ := lookup_defineAll_standard definitions "pi"
  obtain ⟨-, -, ⟨-, -, hmax⟩, -⟩ := lookup_defineAll_standard definitions "max"
  obtain ⟨hexp, hno⟩ := hmeaning _ hunary
  have harity : vocabulary.arity "twist" = 1 := by
    rw [arity, isBinary, hno]
    rfl
  obtain ⟨htakes, haccepts⟩ := hcall (Or.inl (hexp ▸ Option.some_ne_none _))
  rw [harity] at htakes haccepts
  let argument := Grammar.Phrase.ofOperand (.unsigned (.named 6 "x"))
  have hfits : (Grammar.Phrase.last argument).CallsFit vocabulary := by
    simp [argument, Grammar.Phrase.CallsFit]
  exact ⟨hvalue _ hconstant, hpi (hnone _ _ (by simp)), hexp, hno,
    (hmax (hnone _ _ (by simp))).2, htakes _ _,
    (haccepts (.last argument) hfits (by decide) 8 0 5 7).mpr (by rw [Grammar.Phrase.count])⟩

end Vocabulary

end BeamCalc
