import BeamCalc.Proofs.Calculator.Agreement
import BeamCalc.Proofs.Calculator.Failure
import BeamCalc.Proofs.Grammar.Correspondence
import BeamCalc.Proofs.Grammar.Roles
import BeamCalc.Proofs.Vocabulary.LastDefinition

/-!
# Definitions that a text does not use

A text uses a name as that of a function where a bracket follows, and elsewhere as that of a
constant or a variable (`Token.uses`). Its program uses the same names as the same kinds, in
another order (`Program.perm_uses`). A definition gives one name a meaning as one kind of name. So
if a text does not use the name as that kind, the definition changes neither how many arguments its
calls have nor what its instructions contribute: the text is compiled and calculated as before it,
with the same errors and events (`Calculator.calculate_define_of_isUnused`). In particular the
constant of a name and the function of the name have nothing to do with each other.
-/

set_option autoImplicit false
set_option relaxedAutoImplicit false

namespace BeamCalc

open Grammar Vocabulary

/-! ### The names that are used -/

/-- The names among tokens, each as the kind of name that it is there: a function before an opening
bracket, and otherwise a constant, or a variable if there is none. -/
def Token.uses : List PlacedToken → List (Kind × String)
  | [] => []
  | ⟨.name text, _⟩ :: after =>
    (if opensBracket after then .function else .constant, text) :: uses after
  | _ :: after => uses after

/-- The name that an instruction looks up, and as which kind of name. -/
def Instruction.use? : Instruction → Option (Kind × String)
  | load name => some (.constant, name)
  | function name => some (.function, name)
  | _ => none

/-- A text does not use the name of a definition as the kind that is defined. -/
def Vocabulary.Definition.IsUnused (definition : Definition) (text : String) : Prop :=
  ∀ tokens, Token.ofText text = .ok tokens → ∀ kind name, definition.Defines kind name →
    (kind, name) ∉ Token.uses tokens

/-- What tokens use, they use behind others. -/
theorem Token.uses_suffix_append (before tokens : List PlacedToken) :
    uses tokens <:+ uses (before ++ tokens) := by
  induction before with
  | nil => exact List.suffix_rfl
  | cons placed before ih =>
    obtain ⟨token, position⟩ := placed
    cases token with
    | number | mark => exact ih
    | name text => exact ih.trans (List.suffix_cons _ _)

/-- A call uses the name of its function. -/
theorem Grammar.Source.Calls.mem_uses {source : Source} {name : String} {position : Nat}
    (h : source.Calls name position) : (.function, name) ∈ Token.uses source.tokens := by
  obtain ⟨opening, before, after, hsplit⟩ := h
  rw [← hsplit, List.append_assoc]
  exact (Token.uses_suffix_append before _).subset List.mem_cons_self

/-- The instructions that tokens stand for use their names. -/
theorem Place.filterMap_use?_roles (place : Place) (tokens : List PlacedToken) :
    ((place.roles tokens).filterMap Role.instruction?).filterMap Instruction.use? =
      Token.uses tokens := by
  induction tokens generalizing place with
  | nil => rfl
  | cons placed after ih =>
    obtain ⟨token, position⟩ := placed
    rw [roles]
    cases token with
    | number value => exact ih _
    | name name =>
      cases hopens : opensBracket after with
      | true =>
        have hrole : place.role ⟨.name name, position⟩ after = .call name := by
          simp [role, hopens]
        rw [hrole, Token.uses, hopens]
        exact congrArg (_ :: ·) (ih _)
      | false =>
        have hrole : place.role ⟨.name name, position⟩ after = .name name := by
          simp [role, hopens]
        rw [hrole, Token.uses, hopens]
        exact congrArg (_ :: ·) (ih _)
    | mark sign =>
      have hnone : ((place.role ⟨.mark sign, position⟩ after).instruction?.bind
          Instruction.use?) = none := by
        simp only [role]
        split_ifs <;> rfl
      cases hrole : (place.role ⟨.mark sign, position⟩ after).instruction? with
      | none =>
        rw [List.filterMap_cons_none hrole]
        exact ih _
      | some instruction =>
        rw [hrole, Option.bind_some] at hnone
        rw [List.filterMap_cons_some hrole, List.filterMap_cons_none hnone]
        exact ih _

namespace Program

variable {vocabulary : Vocabulary} {text : String} {program : Program} {tokens : List PlacedToken}

/-- A program uses the names of its text. -/
theorem perm_uses (h : ofText vocabulary text = .ok program)
    (htokens : Token.ofText text = .ok tokens) :
    (program.instructions.filterMap Instruction.use?).Perm (Token.uses tokens) := by
  obtain ⟨phrase, hphrase, -, -, hemission⟩ := ofText_eq_ok_iff.mp h
  obtain rfl : tokens = phrase.tokens := Except.ok.inj (htokens.symm.trans hphrase)
  have hroles := phrase.roles_tokens rfl .nil
  rw [List.append_nil, Place.roles, List.append_nil] at hroles
  rw [← Place.operand.filterMap_use?_roles, hroles, ← hemission]
  exact (phrase.reorders.perm.filterMap _).symm

end Program

/-! ### What a definition changes -/

namespace Vocabulary

variable {vocabulary : Vocabulary} {definition : Definition} {name : String}

/-- The number of arguments of a call changes only where the function is defined. -/
theorem arity_define_of_not_defines (h : ¬definition.Defines .function name) :
    (vocabulary.define definition).arity name = vocabulary.arity name := by
  unfold arity isBinary
  rw [(function_define_of_not_defines vocabulary h).2]

theorem operator_define (vocabulary : Vocabulary) (definition : Definition) :
    (vocabulary.define definition).operator = vocabulary.operator := by
  cases definition <;> rfl

end Vocabulary

namespace Setting

variable {setting : Setting} {definition : Definition} {instruction : Instruction}

/-- The setting after a definition. -/
def define (setting : Setting) (definition : Definition) : Setting :=
  { setting with vocabulary := setting.vocabulary.define definition }

/-- An instruction contributes the same after a definition of what it does not use. -/
theorem contribution_define
    (h : ∀ kind name, instruction.use? = some (kind, name) → ¬definition.Defines kind name) :
    (setting.define definition).contribution instruction = setting.contribution instruction := by
  cases instruction with
  | number | negate => rfl
  | load name =>
    have hconstant : (setting.define definition).vocabulary.constant name =
        setting.vocabulary.constant name := constant_define_of_not_defines (h _ _ rfl)
    refine congrArg Contribution.answer ?_
    unfold resolve
    rw [hconstant]
    rfl
  | operator symbol =>
    have hoperator : (setting.define definition).vocabulary.operator =
        setting.vocabulary.operator := operator_define setting.vocabulary definition
    unfold contribution
    rw [hoperator]
  | function name =>
    obtain ⟨hunary, hbinary⟩ : (setting.define definition).vocabulary.unary name =
          setting.vocabulary.unary name ∧
        (setting.define definition).vocabulary.binary name = setting.vocabulary.binary name :=
      function_define_of_not_defines setting.vocabulary (h _ _ rfl)
    simp only [contribution, hunary, hbinary]

end Setting

namespace Program

variable {vocabulary : Vocabulary} {definition : Definition} {text : String}

/-- A text is compiled to the same program or fails in the same way after a definition that it does
not use. -/
theorem ofText_define (h : definition.IsUnused text) :
    ofText (vocabulary.define definition) text = ofText vocabulary text := by
  unfold ofText
  cases htokens : Token.ofText text with
  | error error => rfl
  | ok tokens =>
    refine ofTokens_congr fun name position hcalls ↦ ?_
    exact arity_define_of_not_defines fun hdefines ↦ h tokens htokens _ _ hdefines hcalls.mem_uses

/-- The program of a text has the same outcome after a definition that the text does not use. -/
theorem evaluate_define (setting : Setting) {program : Program} (h : definition.IsUnused text)
    (hprogram : ofText vocabulary text = .ok program) :
    program.evaluate (setting.define definition) = program.evaluate setting := by
  obtain ⟨tokens, htokens⟩ : ∃ tokens, Token.ofText text = .ok tokens := by
    obtain ⟨phrase, hphrase, -⟩ := ofText_eq_ok_iff.mp hprogram
    exact ⟨_, hphrase⟩
  refine evaluate_eq_of_contribution fun instruction hinstruction ↦ ?_
  refine Setting.contribution_define fun kind name huse hdefines ↦
    h tokens htokens kind name hdefines ?_
  rw [← (perm_uses hprogram htokens).mem_iff, List.mem_filterMap]
  exact ⟨instruction, hinstruction, huse⟩

end Program

namespace Calculator

variable {calculator : Calculator} {definition : Definition} {text : String}

/-- The calculator after a definition. -/
def define (calculator : Calculator) (definition : Definition) : Calculator :=
  { calculator with vocabulary := calculator.vocabulary.define definition }

/-- A definition makes no difference to a text that does not use it, whatever the vocabulary is: the
text is compiled to the same program or fails in the same way, its program has the same value or
failure with the same notices for any values of variables, and so has the text if it is compiled and
evaluated at once. -/
theorem calculate_define_of_isUnused (h : definition.IsUnused text) :
    (calculator.define definition).compile text = calculator.compile text ∧
    (∀ program, (calculator.compile text).result = .ok program → ∀ values,
      (calculator.define definition).evaluate values program =
        calculator.evaluate values program) ∧
    ∀ values, (calculator.define definition).calculate values text =
      calculator.calculate values text := by
  have hcompile : (calculator.define definition).compile text = calculator.compile text := by
    have hprogram : Program.ofText (calculator.define definition).vocabulary text =
        Program.ofText calculator.vocabulary text := Program.ofText_define h
    unfold compile
    rw [hprogram]
  have hevaluate : ∀ program, (calculator.compile text).result = .ok program → ∀ values,
      (calculator.define definition).evaluate values program =
        calculator.evaluate values program := by
    intro program hprogram values
    have houtcome := Program.evaluate_define (calculator.setting values) h
      (compile_eq_ok_iff.mp hprogram)
    exact evaluate_eq_of_outcome houtcome
  refine ⟨hcompile, hevaluate, fun values ↦ ?_⟩
  unfold calculate
  rw [hcompile]
  exact Report.bind_congr fun program hprogram ↦ hevaluate program hprogram values

/-- The constant `max` makes no difference to a call of `max`, and the function `x` none to the
variable `x`. -/
theorem calculate_define_of_isUnused_kinds :
    (Definition.constant "max" 7).IsUnused "max(x,2)" ∧
      (Definition.binary "x" Float.pow).IsUnused "max(x,2)" ∧
      ∀ values,
        (define {} (.constant "max" 7)).calculate values "max(x,2)" =
          calculate {} values "max(x,2)" ∧
        (define {} (.binary "x" Float.pow)).calculate values "max(x,2)" =
          calculate {} values "max(x,2)" := by
  obtain ⟨value, htokens⟩ : ∃ value, Token.ofText "max(x,2)" = .ok
      [⟨.name "max", 0⟩, ⟨.mark .openParen, 3⟩, ⟨.name "x", 4⟩, ⟨.mark .comma, 5⟩,
        ⟨.number value, 6⟩, ⟨.mark .closeParen, 7⟩] :=
    ⟨_, by with_unfolding_all rfl⟩
  have hconstant : (Definition.constant "max" 7).IsUnused "max(x,2)" := by
    rintro tokens h kind name ⟨⟩
    obtain rfl := Except.ok.inj (htokens.symm.trans h)
    change _ ∉ [(Kind.function, "max"), (.constant, "x")]
    decide
  have hfunction : (Definition.binary "x" Float.pow).IsUnused "max(x,2)" := by
    rintro tokens h kind name ⟨⟩
    obtain rfl := Except.ok.inj (htokens.symm.trans h)
    change _ ∉ [(Kind.function, "max"), (.constant, "x")]
    decide
  exact ⟨hconstant, hfunction, fun values ↦
    ⟨(calculate_define_of_isUnused hconstant).2.2 values,
      (calculate_define_of_isUnused hfunction).2.2 values⟩⟩

end Calculator

end BeamCalc
