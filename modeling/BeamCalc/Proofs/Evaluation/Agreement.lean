import BeamCalc.Proofs.Evaluation.Run
import BeamCalc.Proofs.Instruction.Names

/-!
# What a name reads

A name reads the constant of the vocabulary, otherwise the value of the variable, and otherwise what
the policy makes of it (`Setting.resolve_of_constant`, `Setting.resolve_of_value`,
`Setting.resolve_of_unresolved`). What instructions contribute decides the outcome of a program
(`Program.evaluate_eq_of_contribution`), so the values of variables matter only as far as the
program reads them and no constant comes before them (`Program.evaluate_congr`).
-/

set_option autoImplicit false
set_option relaxedAutoImplicit false

namespace BeamCalc

/-- What a policy makes of a name without a value. -/
def Policy.unresolved (policy : Policy) (name : String) : Outcome :=
  if policy.strict then ⟨.error (.undefinedVariable name), [.query name]⟩
  else if policy.notices then ⟨.ok 0, [.query name, .notice ⟨name⟩]⟩
  else ⟨.ok 0, [.query name]⟩

theorem Outcome.isUniform_id : IsUniform id where
  quiet _ := rfl
  into _ _ := rfl

namespace Setting

variable {setting setting' : Setting} {instruction : Instruction} {name : String} {value : Float}

/-- A constant is read without asking for a variable. -/
theorem resolve_of_constant (h : setting.vocabulary.constant name = some value) :
    setting.resolve name = ⟨.ok value, []⟩ := by
  simp only [resolve, h]

/-- A name that is no constant reads the value of the variable. -/
theorem resolve_of_value (hconstant : setting.vocabulary.constant name = none)
    (hvalue : setting.values name = some value) :
    setting.resolve name = ⟨.ok value, [.query name]⟩ := by
  simp only [resolve, hconstant, hvalue]

/-- A name that is neither a constant nor a variable is left to the policy. -/
theorem resolve_of_unresolved (hconstant : setting.vocabulary.constant name = none)
    (hvalue : setting.values name = none) :
    setting.resolve name = setting.policy.unresolved name := by
  simp only [resolve, hconstant, hvalue, Policy.unresolved]

/-- Settings with one vocabulary and one policy read the same value of a name, unless no constant
comes before the variable and its values differ. -/
theorem resolve_congr (hvocabulary : setting'.vocabulary = setting.vocabulary)
    (hpolicy : setting'.policy = setting.policy)
    (h : setting.vocabulary.constant name = none → setting'.values name = setting.values name) :
    setting'.resolve name = setting.resolve name := by
  cases hconstant : setting.vocabulary.constant name with
  | some value =>
    rw [resolve_of_constant hconstant, resolve_of_constant (hvocabulary ▸ hconstant)]
  | none =>
    have hconstant' : setting'.vocabulary.constant name = none := hvocabulary ▸ hconstant
    cases hvalue : setting.values name with
    | some value =>
      rw [resolve_of_value hconstant hvalue,
        resolve_of_value hconstant' ((h hconstant).trans hvalue)]
    | none =>
      rw [resolve_of_unresolved hconstant hvalue,
        resolve_of_unresolved hconstant' ((h hconstant).trans hvalue), hpolicy]

/-- Settings with one vocabulary differ only in what names read. -/
theorem contribution_congr (hvocabulary : setting'.vocabulary = setting.vocabulary)
    (h : ∀ name, instruction = .load name → setting'.resolve name = setting.resolve name) :
    setting'.contribution instruction = setting.contribution instruction := by
  cases instruction with
  | load name => exact congrArg Contribution.answer (h name rfl)
  | number | negate | operator | function =>
    unfold contribution
    rw [hvocabulary]

end Setting

namespace Program

variable {program : Program} {setting setting' : Setting}

/-- Settings in which every instruction of a program contributes the same give it one outcome. -/
theorem evaluate_eq_of_contribution
    (h : ∀ instruction ∈ program.instructions,
      setting'.contribution instruction = setting.contribution instruction) :
    program.evaluate setting' = program.evaluate setting := by
  refine Setting.run_eq_of_contribution Outcome.isUniform_id [] fun instruction hinstruction ↦ ?_
  rw [h instruction (List.mem_reverse.mp hinstruction)]
  cases setting.contribution instruction <;> rfl

/-- The evaluation of a program depends only on the variables that it reads and that are no
constants. -/
theorem evaluate_congr (hvocabulary : setting'.vocabulary = setting.vocabulary)
    (hpolicy : setting'.policy = setting.policy)
    (h : ∀ name ∈ program.names, setting.vocabulary.constant name = none →
      setting'.values name = setting.values name) :
    program.evaluate setting' = program.evaluate setting := by
  refine evaluate_eq_of_contribution fun instruction hinstruction ↦
    Setting.contribution_congr hvocabulary ?_
  rintro name rfl
  exact Setting.resolve_congr hvocabulary hpolicy (h name (mem_names_iff.mpr hinstruction))

end Program

end BeamCalc
