import BeamCalc.Calculator
import BeamCalc.Proofs.Grammar.Emission

/-!
# How the evaluation of compiled texts fails

A text that a calculator compiles is evaluated by the same calculator to a value unless one of its
instructions offends (`Setting.Offends`): it calls a function that the vocabulary does not have, or
under a strict policy it reads a name that has no value. Then the last such instruction is the
reason why there is no value. The other evaluation errors do not occur, because the program is in
postfix order, the operators are those of the vocabulary, and a function takes as many operands as
the grammar puts before it.
-/

set_option autoImplicit false
set_option relaxedAutoImplicit false

namespace BeamCalc

namespace Setting

/-- An instruction for which there is no value, and why. -/
inductive Offends (setting : Setting) : Instruction → EvalError → Prop where
  | function {name : String} (hunary : setting.vocabulary.unary name = none)
      (hbinary : setting.vocabulary.binary name = none) :
    Offends setting (.function name) (.unknownFunction name)
  | load {name : String} (hstrict : setting.policy.strict)
      (hconstant : setting.vocabulary.constant name = none) (hvalue : setting.values name = none) :
    Offends setting (.load name) (.undefinedVariable name)

variable {setting : Setting} {instruction : Instruction} {error : EvalError}

/-- A name is refused exactly if it offends. -/
theorem error?_resolve_eq_some_iff {name : String} :
    (setting.resolve name).error? = some error ↔ setting.Offends (.load name) error := by
  constructor
  · intro h
    unfold resolve at h
    split at h
    · cases h
    · rename_i hconstant
      split at h
      · cases h
      · rename_i hvalue
        split at h
        · rename_i hstrict
          cases h
          exact .load hstrict hconstant hvalue
        · split at h <;> cases h
  · rintro (_ | ⟨hstrict, hconstant, hvalue⟩)
    simp only [resolve, hconstant, hvalue, hstrict]
    rfl

/-- An instruction of which the operator is known refuses to answer exactly if it offends. -/
theorem refusal?_eq_some_iff
    (hoperator : ∀ symbol, instruction = .operator symbol →
      ∃ meaning, setting.vocabulary.operator symbol = some meaning) :
    setting.refusal? instruction = some error ↔ setting.Offends instruction error := by
  cases instruction with
  | number value | negate =>
    constructor
    · intro h
      cases h
    · intro h
      cases h
  | load name => exact error?_resolve_eq_some_iff
  | operator symbol =>
    obtain ⟨meaning, hmeaning⟩ := hoperator symbol rfl
    constructor
    · intro h
      simp only [refusal?, contribution, hmeaning] at h
      cases h
    · intro h
      cases h
  | function name =>
    constructor
    · intro h
      unfold refusal? contribution at h
      dsimp only at h
      split at h
      · rename_i hanswer
        split at hanswer
        · cases hanswer
        · rename_i hunary
          split at hanswer
          · cases hanswer
          · rename_i hbinary
            cases hanswer
            cases h
            exact .function hunary hbinary
      · cases h
    · rintro ⟨hunary, hbinary⟩
      simp only [refusal?, contribution, hunary, hbinary]
      rfl

/-- No instruction offends exactly if all functions are known and, under a strict policy, all names
have values. -/
theorem forall_not_offends_iff {instructions : List Instruction} :
    (∀ instruction ∈ instructions, ∀ error, ¬setting.Offends instruction error) ↔
      (∀ name, .function name ∈ instructions →
        (setting.vocabulary.unary name).isSome ∨ (setting.vocabulary.binary name).isSome) ∧
      (setting.policy.strict → ∀ name, .load name ∈ instructions →
        (setting.vocabulary.constant name).isSome ∨ (setting.values name).isSome) := by
  constructor
  · intro hnone
    constructor
    · intro name hname
      by_contra hunknown
      rw [not_or, Option.not_isSome_iff_eq_none, Option.not_isSome_iff_eq_none] at hunknown
      exact hnone _ hname _ (.function hunknown.1 hunknown.2)
    · intro hstrict name hname
      by_contra hunknown
      rw [not_or, Option.not_isSome_iff_eq_none, Option.not_isSome_iff_eq_none] at hunknown
      exact hnone _ hname _ (.load hstrict hunknown.1 hunknown.2)
  · rintro ⟨hfunctions, hnames⟩ instruction hinstruction error hoffends
    cases hoffends with
    | @function name hunary hbinary =>
      have hknown := hfunctions name hinstruction
      rw [hunary, hbinary] at hknown
      simp at hknown
    | @load name hstrict hconstant hvalue =>
      have hknown := hnames hstrict name hinstruction
      rw [hconstant, hvalue] at hknown
      simp at hknown

end Setting

namespace Program

variable {setting : Setting} {text : String} {program : Program}

/-- The operators of the program of a text are known. -/
theorem exists_operator_of_mem (hconsistent : setting.vocabulary.IsConsistent)
    (hprogram : ofText setting.vocabulary text = .ok program) {instruction : Instruction}
    (hinstruction : instruction ∈ program.instructions) (symbol : Char)
    (hsymbol : instruction = .operator symbol) :
    ∃ meaning, setting.vocabulary.operator symbol = some meaning := by
  rw [hsymbol] at hinstruction
  obtain ⟨sign, hoperator, rfl⟩ := isOperator_of_ofText hprogram hinstruction
  exact hconsistent.exists_operator hoperator

/-- The program of a text fails exactly at the last instruction that offends. -/
theorem evaluate_eq_error_iff (hconsistent : setting.vocabulary.IsConsistent)
    (hprogram : ofText setting.vocabulary text = .ok program) {error : EvalError} :
    (program.evaluate setting).result = .error error ↔
      ∃ before instruction after, program.instructions = before ++ instruction :: after ∧
        setting.Offends instruction error ∧
          ∀ later ∈ after, ∀ error, ¬setting.Offends later error := by
  have hrefusal : ∀ instruction ∈ program.instructions, ∀ error,
      setting.refusal? instruction = some error ↔ setting.Offends instruction error :=
    fun instruction hinstruction error ↦
      Setting.refusal?_eq_some_iff (exists_operator_of_mem hconsistent hprogram hinstruction)
  have herror := (postfix_of_ofText hprogram).error?_evaluate hconsistent
  rw [← Outcome.error?_eq_some_iff, herror, List.findSome?_eq_some_iff]
  constructor
  · rintro ⟨after, instruction, before, hinstructions, hinstruction, hafter⟩
    have hsplit : program.instructions = before.reverse ++ instruction :: after.reverse := by
      have hreverse := congrArg List.reverse hinstructions
      simpa using hreverse
    refine ⟨before.reverse, instruction, after.reverse, hsplit,
      (hrefusal _ (by simp [hsplit]) _).mp hinstruction, ?_⟩
    intro later hlater error hoffends
    have hnone := hafter later (List.mem_reverse.mp hlater)
    rw [(hrefusal later (by simp [hsplit, List.mem_reverse.mp hlater]) error).mpr hoffends] at hnone
    cases hnone
  · rintro ⟨before, instruction, after, hsplit, hinstruction, hafter⟩
    refine ⟨after.reverse, instruction, before.reverse, by simp [hsplit],
      (hrefusal _ (by simp [hsplit]) _).mpr hinstruction, ?_⟩
    intro later hlater
    have hmem := List.mem_reverse.mp hlater
    rw [Option.eq_none_iff_forall_ne_some]
    intro error hsome
    exact hafter later hmem error ((hrefusal later (by simp [hsplit, hmem]) error).mp hsome)

/-- The program of a text has a value exactly if no instruction offends. -/
theorem evaluate_eq_ok_iff (hconsistent : setting.vocabulary.IsConsistent)
    (hprogram : ofText setting.vocabulary text = .ok program) :
    (∃ value, (program.evaluate setting).result = .ok value) ↔
      ∀ instruction ∈ program.instructions, ∀ error, ¬setting.Offends instruction error := by
  have herror := (postfix_of_ofText hprogram).error?_evaluate hconsistent
  rw [← Outcome.error?_eq_none_iff, herror, List.findSome?_eq_none_iff]
  refine forall_congr' fun instruction ↦ ?_
  rw [List.mem_reverse]
  refine forall_congr' fun hinstruction ↦ ?_
  rw [Option.eq_none_iff_forall_ne_some]
  refine forall_congr' fun error ↦ not_congr ?_
  exact Setting.refusal?_eq_some_iff (exists_operator_of_mem hconsistent hprogram hinstruction)

end Program

namespace Calculator

/-- What a calculator takes as given when it evaluates. -/
def setting (calculator : Calculator) (values : Table String Float) : Setting :=
  { calculator with values }

/-- A text is compiled exactly if it is a program. -/
theorem compile_eq_ok_iff {calculator : Calculator} {text : String} {program : Program} :
    (calculator.compile text).result = .ok program ↔
      Program.ofText calculator.vocabulary text = .ok program := by
  unfold compile
  cases hprogram : Program.ofText calculator.vocabulary text with
  | error error => simp
  | ok found => simp

/-- A calculator gives the result of the program, and no failure but those of evaluation. -/
theorem result_evaluate (calculator : Calculator) (values : Table String Float)
    (program : Program) :
    (calculator.evaluate values program).result =
      (program.evaluate (calculator.setting values)).result.mapError .evaluation := by
  unfold evaluate setting
  generalize program.evaluate _ = outcome
  obtain ⟨_ | value, effects⟩ := outcome <;> rfl

/-- An evaluation fails exactly if that of the program does. -/
theorem evaluate_eq_error_iff {calculator : Calculator} {values : Table String Float}
    {program : Program} {failure : Failure} :
    (calculator.evaluate values program).result = .error failure ↔
      ∃ error, (program.evaluate (calculator.setting values)).result = .error error ∧
        failure = .evaluation error := by
  rw [result_evaluate]
  cases (program.evaluate (calculator.setting values)).result <;> simp [Except.mapError, eq_comm]

/-- An evaluation has a value exactly if that of the program has. -/
theorem evaluate_eq_ok_iff {calculator : Calculator} {values : Table String Float}
    {program : Program} {value : Float} :
    (calculator.evaluate values program).result = .ok value ↔
      (program.evaluate (calculator.setting values)).result = .ok value := by
  rw [result_evaluate]
  cases (program.evaluate (calculator.setting values)).result <;> simp [Except.mapError]

/-- What a calculator with a built vocabulary compiles, it evaluates to a value exactly if all
functions are known and, under a strict policy, all names have values. Otherwise it fails for the
last instruction that offends. -/
theorem evaluate_of_compile {calculator : Calculator} (hbuilt : calculator.vocabulary.IsBuilt)
    (values : Table String Float) {text : String} {program : Program}
    (hcompiled : (calculator.compile text).result = .ok program) :
    (calculator.evaluate values program).result ≠ .error (.evaluation .missingOperand) ∧
    (∀ count, (calculator.evaluate values program).result ≠
      .error (.evaluation (.unusedInstructions count))) ∧
    (∀ symbol, (calculator.evaluate values program).result ≠
      .error (.evaluation (.unknownOperator symbol))) ∧
    ((∃ value, (calculator.evaluate values program).result = .ok value) ↔
      (∀ name, .function name ∈ program.instructions →
        (calculator.vocabulary.unary name).isSome ∨ (calculator.vocabulary.binary name).isSome) ∧
      (calculator.policy.strict → ∀ name, .load name ∈ program.instructions →
        (calculator.vocabulary.constant name).isSome ∨ (values name).isSome)) ∧
    ∀ failure, (calculator.evaluate values program).result = .error failure ↔
      ∃ before instruction after error,
        program.instructions = before ++ instruction :: after ∧
        (calculator.setting values).Offends instruction error ∧
        (∀ later ∈ after, ∀ error, ¬(calculator.setting values).Offends later error) ∧
        failure = .evaluation error := by
  have hconsistent : (calculator.setting values).vocabulary.IsConsistent := hbuilt.isConsistent
  have hprogram : Program.ofText (calculator.setting values).vocabulary text = .ok program :=
    compile_eq_ok_iff.mp hcompiled
  have hfails : ∀ failure, (calculator.evaluate values program).result = .error failure ↔
      ∃ before instruction after error,
        program.instructions = before ++ instruction :: after ∧
        (calculator.setting values).Offends instruction error ∧
        (∀ later ∈ after, ∀ error, ¬(calculator.setting values).Offends later error) ∧
        failure = .evaluation error := by
    intro failure
    simp only [evaluate_eq_error_iff, Program.evaluate_eq_error_iff hconsistent hprogram]
    constructor
    · rintro ⟨error, ⟨before, instruction, after, hsplit, hoffends, hafter⟩, hfailure⟩
      exact ⟨before, instruction, after, error, hsplit, hoffends, hafter, hfailure⟩
    · rintro ⟨before, instruction, after, error, hsplit, hoffends, hafter, hfailure⟩
      exact ⟨error, ⟨before, instruction, after, hsplit, hoffends, hafter⟩, hfailure⟩
  have hnever : ∀ error, (∀ instruction, ¬(calculator.setting values).Offends instruction error) →
      (calculator.evaluate values program).result ≠ .error (.evaluation error) := by
    intro error hno herror
    obtain ⟨_, instruction, _, _, -, hoffends, -, hfailure⟩ := (hfails _).mp herror
    exact hno instruction (Failure.evaluation.inj hfailure ▸ hoffends)
  have hvalue : (∃ value, (calculator.evaluate values program).result = .ok value) ↔
      ∀ instruction ∈ program.instructions, ∀ error,
        ¬(calculator.setting values).Offends instruction error := by
    simp only [evaluate_eq_ok_iff, Program.evaluate_eq_ok_iff hconsistent hprogram]
  exact ⟨hnever _ nofun, fun _ ↦ hnever _ nofun, fun _ ↦ hnever _ nofun,
    hvalue.trans Setting.forall_not_offends_iff, hfails⟩

/-- The evaluation of a call fails for the function, not for the argument that comes before it. -/
theorem evaluate_of_compile_unknown :
    (compile { policy := { strict := true } } "sinh(x)").result =
        .ok ⟨[.load "x", .function "sinh"]⟩ ∧
      (evaluate { policy := { strict := true } } (fun _ ↦ none)
          ⟨[.load "x", .function "sinh"]⟩).result =
        .error (.evaluation (.unknownFunction "sinh")) := by
  have hcompiled : (compile { policy := { strict := true } } "sinh(x)").result =
      .ok ⟨[.load "x", .function "sinh"]⟩ := by
    rw [compile_eq_ok_iff]
    decide +kernel
  have hfails := (evaluate_of_compile ⟨[], rfl⟩ (fun _ ↦ none) hcompiled).2.2.2.2
  refine ⟨hcompiled, (hfails _).mpr ⟨[.load "x"], .function "sinh", [], _, rfl, ?_, ?_, rfl⟩⟩
  · exact .function (by decide) (by decide)
  · intro later hlater
    cases hlater

end Calculator

end BeamCalc
