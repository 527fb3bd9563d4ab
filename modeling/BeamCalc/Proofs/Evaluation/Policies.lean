import BeamCalc.Proofs.Evaluation.Run

/-!
# Runs under different policies

A program is evaluated alike under every policy up to the first name without a value. Where the
lenient policy gives notice of such a name and counts it as zero, the silent one counts it as zero
and the strict one fails. So the outcomes under both follow from the lenient one: without its
notices (`Outcome.withoutNotices`), and up to its first notice (`Outcome.upToNotice`), of which the
name is then undefined. `evaluate_under_policies` says what this means for results and notices.
-/

set_option autoImplicit false
set_option relaxedAutoImplicit false

namespace BeamCalc

/-! ### Outcomes without notices and up to the first one -/

namespace Outcome

/-- The same outcome, but no notice is given. -/
def withoutNotices (outcome : Outcome) : Outcome :=
  ⟨outcome.result, outcome.effects.filter fun effect ↦ effect.notice?.isNone⟩

/-- The outcome of a run that does `effects` and then has the result, but fails where the first
notice would be given, for the name that it is about. -/
def cutAtNotice (result : Except EvalError Float) : (effects : List Effect) → Outcome
  | [] => ⟨result, []⟩
  | .query name :: effects => (cutAtNotice result effects).after [.query name]
  | .notice notice :: _ => ⟨.error (.undefinedVariable notice.name), []⟩

/-- The outcome of a run that fails where the first notice would be given. -/
def upToNotice (outcome : Outcome) : Outcome :=
  cutAtNotice outcome.result outcome.effects

theorem notices_withoutNotices (outcome : Outcome) : outcome.withoutNotices.notices = [] := by
  rw [notices_eq, List.filterMap_eq_nil_iff]
  intro effect heffect
  exact Option.isNone_iff_eq_none.mp (List.mem_filter.mp heffect).2

theorem notices_cutAtNotice (result : Except EvalError Float) (effects : List Effect) :
    (cutAtNotice result effects).notices = [] := by
  induction effects with
  | nil => rfl
  | cons effect effects ih =>
    cases effect with
    | query name => exact ih
    | notice notice => rfl

theorem result_cutAtNotice (result : Except EvalError Float) (effects : List Effect) :
    (cutAtNotice result effects).result = match notices ⟨result, effects⟩ with
      | [] => result
      | notice :: _ => .error (.undefinedVariable notice.name) := by
  induction effects with
  | nil => rfl
  | cons effect effects ih =>
    cases effect with
    | query name => exact ih
    | notice notice => rfl

theorem isUniform_withoutNotices : IsUniform withoutNotices where
  quiet result := rfl
  into outcome next := by
    obtain ⟨_ | value, effects⟩ := outcome
    · rfl
    · simp [withoutNotices, attempt, Attempt.into, after]

theorem isUniform_upToNotice : IsUniform upToNotice where
  quiet result := rfl
  into outcome next := by
    obtain ⟨result, effects⟩ := outcome
    induction effects with
    | nil => cases result <;> rfl
    | cons effect effects ih =>
      cases effect with
      | query name =>
        change upToNotice (((Outcome.mk result effects).after [.query name]).attempt.into next) =
          ((upToNotice ⟨result, effects⟩).after [.query name]).attempt.into _
        rw [into_after, into_after, ← ih]
        rfl
      | notice notice => cases result <;> rfl

end Outcome

namespace Setting

/-! ### Settings with another policy -/

/-- The same setting with another policy. -/
def under (setting : Setting) (policy : Policy) : Setting :=
  { setting with policy }

/-- Settings that differ only in how they resolve names contribute alike. -/
theorem contribution_under (setting : Setting) {policy policy' : Policy}
    {change : Outcome → Outcome} (hchange : Outcome.IsUniform change)
    (hresolve : ∀ name, (setting.under policy').resolve name =
      change ((setting.under policy).resolve name)) (instruction : Instruction) :
    (setting.under policy').contribution instruction =
      ((setting.under policy).contribution instruction).map change := by
  cases instruction with
  | number value => exact congrArg Contribution.answer (hchange.quiet _).symm
  | load name => exact congrArg Contribution.answer (hresolve name)
  | negate => rfl
  | operator symbol =>
    simp only [contribution, under]
    cases setting.vocabulary.operator symbol with
    | some meaning => rfl
    | none => exact congrArg Contribution.answer (hchange.quiet _).symm
  | function name =>
    simp only [contribution, under]
    cases setting.vocabulary.unary name with
    | some meaning => rfl
    | none =>
      cases setting.vocabulary.binary name with
      | some meaning => rfl
      | none => exact congrArg Contribution.answer (hchange.quiet _).symm

/-- The silent policy resolves names as the lenient one does, without notices. -/
theorem resolve_silent (setting : Setting) (name : String) :
    (setting.under { strict := false, notices := false }).resolve name =
      ((setting.under { strict := false, notices := true }).resolve name).withoutNotices := by
  simp only [resolve, under]
  cases setting.vocabulary.constant name with
  | some value => rfl
  | none => cases setting.values name <;> rfl

/-- The strict policy resolves names as the lenient one does, but fails instead of a notice. -/
theorem resolve_strict (setting : Setting) (notices : Bool) (name : String) :
    (setting.under { strict := true, notices }).resolve name =
      ((setting.under { strict := false, notices := true }).resolve name).upToNotice := by
  simp only [resolve, under]
  cases setting.vocabulary.constant name with
  | some value => rfl
  | none => cases setting.values name <;> rfl

end Setting

namespace Program

/-- The silent outcome is the lenient one without its notices. -/
theorem evaluate_silent (program : Program) (setting : Setting) :
    program.evaluate (setting.under { strict := false, notices := false }) =
      (program.evaluate (setting.under { strict := false, notices := true })).withoutNotices :=
  Setting.run_eq_of_contribution Outcome.isUniform_withoutNotices [] fun instruction _ ↦
    setting.contribution_under Outcome.isUniform_withoutNotices setting.resolve_silent instruction

/-- The strict outcome is the lenient one up to its first notice. -/
theorem evaluate_strict (program : Program) (setting : Setting) (notices : Bool) :
    program.evaluate (setting.under { strict := true, notices }) =
      (program.evaluate (setting.under { strict := false, notices := true })).upToNotice :=
  Setting.run_eq_of_contribution Outcome.isUniform_upToNotice [] fun instruction _ ↦
    setting.contribution_under Outcome.isUniform_upToNotice (setting.resolve_strict notices)
      instruction

/-- What the silent and the strict policy make of a program, well-formed or not, follows from the
lenient outcome. The silent result is the same. The strict result is the same if there is no
notice, and otherwise the name of the first one is undefined. Neither gives notice of anything. -/
theorem evaluate_under_policies (program : Program) (setting : Setting) (notices : Bool) :
    let lenient := program.evaluate (setting.under { strict := false, notices := true })
    let silent := program.evaluate (setting.under { strict := false, notices := false })
    let strict := program.evaluate (setting.under { strict := true, notices })
    (silent.result = lenient.result ∧ silent.notices = []) ∧
    (strict.notices = [] ∧
      strict.result = match lenient.notices with
        | [] => lenient.result
        | notice :: _ => .error (.undefinedVariable notice.name)) ∧
    ∀ value, strict.result = .ok value ↔ lenient.result = .ok value ∧ lenient.notices = [] := by
  intro lenient silent strict
  have hsilent : silent = lenient.withoutNotices := program.evaluate_silent setting
  have hstrict : strict = lenient.upToNotice := program.evaluate_strict setting notices
  have hresult : strict.result = match lenient.notices with
      | [] => lenient.result
      | notice :: _ => .error (.undefinedVariable notice.name) := by
    rw [hstrict]
    exact Outcome.result_cutAtNotice _ _
  refine ⟨⟨?_, ?_⟩, ⟨?_, hresult⟩, ?_⟩
  · rw [hsilent]
    rfl
  · rw [hsilent]
    exact lenient.notices_withoutNotices
  · rw [hstrict]
    exact Outcome.notices_cutAtNotice _ _
  · intro value
    rw [hresult]
    cases lenient.notices with
    | nil => simp
    | cons notice others => simp

end Program

end BeamCalc
