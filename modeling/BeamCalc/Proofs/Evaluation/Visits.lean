import BeamCalc.Proofs.Evaluation.Postfix
import BeamCalc.Proofs.Evaluation.Run
import Mathlib.Data.List.Basic

/-!
# What an evaluation visits

A run visits the instructions of a program from the last one on, each once, up to the point where it
stops. Its result tells where that is (`Setting.StopsAt`): a run with a value has visited them all,
and so has one that misses an operand; the unused instructions are those that are left; every other
error is that of the instruction visited last. What the run does on the way is what is done at the
instructions that it visits, in their order (`Setting.exists_visited_run`), also in programs that
are not well-formed.

So a run asks for a variable at each name that it visits and that is no constant, and for nothing
else, and it gives notice of those that have no value if the policy wants it
(`Program.exists_visited_evaluate`).
-/

set_option autoImplicit false
set_option relaxedAutoImplicit false

namespace BeamCalc

/-- The variable that an effect asks for, unless it is a notice. -/
def Effect.query? : Effect → Option String
  | .query name => some name
  | .notice _ => none

theorem Outcome.queries_eq (outcome : Outcome) :
    outcome.queries = outcome.effects.filterMap Effect.query? :=
  rfl

namespace Setting

variable {setting : Setting} {instruction : Instruction} {visited left : List Instruction}
  {result : Except EvalError Float}

/-! ### Where a run stops -/

/-- Whether a run with a result, the last instruction of the program first, has visited the one
instructions and left the others. -/
def StopsAt (setting : Setting) (visited left : List Instruction) : Except EvalError Float → Prop
  | .ok _ | .error .missingOperand => left = []
  | .error (.unusedInstructions count) => left.length = count
  | .error error => ∃ earlier last, visited = earlier ++ [last] ∧
      setting.refusal? last = some error ∧ ∀ other ∈ earlier, setting.refusal? other = none

theorem refusal?_of_operation {operation : Pending}
    (h : setting.contribution instruction = .operation operation) :
    setting.refusal? instruction = none := by
  rw [refusal?, h]

theorem refusal?_of_answer {outcome : Outcome}
    (h : setting.contribution instruction = .answer outcome) :
    setting.refusal? instruction = outcome.error? := by
  rw [refusal?, h]

/-- An instruction is refused for what it names, not for what stands around it. -/
theorem refusal?_ne (instruction : Instruction) :
    setting.refusal? instruction ≠ some .missingOperand ∧
      ∀ count, setting.refusal? instruction ≠ some (.unusedInstructions count) := by
  cases instruction with
  | number | negate => simp [refusal?, contribution, Outcome.error?]
  | load name =>
    simp only [refusal?, contribution, resolve]
    cases setting.vocabulary.constant name with
    | some value => simp [Outcome.error?]
    | none =>
      cases setting.values name with
      | some value => simp [Outcome.error?]
      | none =>
        cases setting.policy.strict with
        | true => simp [Outcome.error?]
        | false => cases setting.policy.notices <;> simp [Outcome.error?]
  | operator symbol =>
    simp only [refusal?, contribution]
    cases setting.vocabulary.operator symbol <;> simp [Outcome.error?]
  | function name =>
    simp only [refusal?, contribution]
    cases setting.vocabulary.unary name with
    | some meaning => simp
    | none => cases setting.vocabulary.binary name <;> simp [Outcome.error?]

/-- A run stops at the instruction that is refused. -/
theorem stopsAt_of_refusal {error : EvalError} (h : setting.refusal? instruction = some error)
    (left : List Instruction) : setting.StopsAt [instruction] left (.error error) := by
  have hlast : ∃ earlier last, [instruction] = earlier ++ [last] ∧
      setting.refusal? last = some error ∧ ∀ other ∈ earlier, setting.refusal? other = none :=
    ⟨[], instruction, rfl, h, nofun⟩
  obtain ⟨hmissing, hunused⟩ := setting.refusal?_ne instruction
  cases error with
  | undefinedVariable | unknownOperator | unknownFunction => exact hlast
  | missingOperand => exact absurd h hmissing
  | unusedInstructions count => exact absurd h (hunused count)

/-- An instruction that is not refused does not stop a run. -/
theorem StopsAt.cons (h : setting.StopsAt visited left result)
    (hnone : setting.refusal? instruction = none) :
    setting.StopsAt (instruction :: visited) left result := by
  match result with
  | .ok _ | .error .missingOperand | .error (.unusedInstructions _) => exact h
  | .error (.undefinedVariable _) | .error (.unknownOperator _) | .error (.unknownFunction _) =>
    obtain ⟨earlier, last, rfl, hlast, hearlier⟩ := h
    refine ⟨instruction :: earlier, last, rfl, hlast, ?_⟩
    intro other hother
    rcases List.mem_cons.mp hother with rfl | hother
    · exact hnone
    · exact hearlier other hother

/-- A run does what is done at the instructions up to the point where it stops. -/
theorem exists_visited_run (setting : Setting) (pending : List Pending)
    (backward : List Instruction) :
    ∃ visited left, visited ++ left = backward ∧
      setting.StopsAt visited left (setting.run pending backward).result ∧
      (setting.run pending backward).effects = visited.flatMap setting.effectsOf := by
  fun_induction setting.run pending backward with
  | case1 pending => exact ⟨[], [], rfl, rfl, rfl⟩
  | case2 pending instruction earlier operation hcontribution ih =>
    obtain ⟨visited, left, rfl, hstops, heffects⟩ := ih
    refine ⟨instruction :: visited, left, rfl, ?_, ?_⟩
    · exact hstops.cons (refusal?_of_operation hcontribution)
    · rw [heffects, List.flatMap_cons, effectsOf_of_operation hcontribution, List.nil_append]
  | case3 pending instruction earlier error effects hcontribution =>
    refine ⟨[instruction], earlier, rfl, ?_, ?_⟩
    · exact stopsAt_of_refusal (refusal?_of_answer hcontribution) earlier
    · rw [List.flatMap_singleton, effectsOf_of_answer hcontribution]
  | case4 pending instruction earlier value effects hcontribution others hsupply ih =>
    obtain ⟨visited, left, rfl, hstops, heffects⟩ := ih
    refine ⟨instruction :: visited, left, rfl, ?_, ?_⟩
    · exact hstops.cons (refusal?_of_answer hcontribution)
    · rw [Outcome.effects_after, heffects, List.flatMap_cons, effectsOf_of_answer hcontribution]
  | case5 pending instruction earlier value effects hcontribution answer hsupply hlast =>
    obtain rfl := List.isEmpty_iff.mp hlast
    refine ⟨[instruction], [], rfl, rfl, ?_⟩
    rw [List.flatMap_singleton, effectsOf_of_answer hcontribution]
  | case6 pending instruction earlier value effects hcontribution answer hsupply hmore =>
    refine ⟨[instruction], earlier, rfl, rfl, ?_⟩
    rw [List.flatMap_singleton, effectsOf_of_answer hcontribution]

/-- A run with a value has done what is done at all the instructions, the last one of the program
first. -/
theorem effects_run {pending : List Pending} {backward : List Instruction} {value : Float}
    (h : (setting.run pending backward).result = .ok value) :
    (setting.run pending backward).effects = backward.flatMap setting.effectsOf := by
  obtain ⟨visited, left, rfl, hstops, heffects⟩ := setting.exists_visited_run pending backward
  rw [h] at hstops
  obtain rfl : left = [] := hstops
  rw [heffects, List.append_nil]

/-! ### What is asked for and reported -/

/-- The variable that is asked for at an instruction. Nothing is asked for where a constant is. -/
def asks? (setting : Setting) : Instruction → Option String
  | .load name => if (setting.vocabulary.constant name).isNone then some name else none
  | .number _ | .negate | .operator _ | .function _ => none

/-- Whether a policy wants notice of a name without a value. -/
def reports (setting : Setting) (name : String) : Bool :=
  setting.policy.notices && !setting.policy.strict && (setting.values name).isNone

/-- The queries and the notices at an instruction. -/
theorem observed_effectsOf (setting : Setting) (instruction : Instruction) :
    (setting.effectsOf instruction).filterMap Effect.query? = (setting.asks? instruction).toList ∧
    (setting.effectsOf instruction).filterMap Effect.notice? =
      ((setting.asks? instruction).toList.filter setting.reports).map Notice.mk := by
  cases instruction with
  | number | negate | operator | function => exact ⟨rfl, rfl⟩
  | load name =>
    simp only [effectsOf, resolve, asks?]
    cases setting.vocabulary.constant name with
    | some value => exact ⟨rfl, rfl⟩
    | none =>
      cases hvalue : setting.values name with
      | some value => simp [Effect.query?, Effect.notice?, reports, hvalue]
      | none =>
        cases hstrict : setting.policy.strict with
        | true => simp [Effect.query?, Effect.notice?, reports, hstrict]
        | false =>
          cases hnotices : setting.policy.notices <;>
            simp [List.filterMap_cons, Effect.query?, Effect.notice?, reports, hvalue, hstrict,
              hnotices]

end Setting

/-- An evaluation asks for a variable at each name that it visits and that is no constant, in the
order in which it visits them, and for nothing else. It gives notice of each of these that has no
value if the policy is lenient and wants notices, and of nothing otherwise. -/
theorem Program.exists_visited_evaluate (program : Program) (setting : Setting) :
    ∃ visited left, visited ++ left = program.instructions.reverse ∧
      setting.StopsAt visited left (program.evaluate setting).result ∧
      (program.evaluate setting).queries = visited.filterMap setting.asks? ∧
      (program.evaluate setting).notices =
        ((visited.filterMap setting.asks?).filter setting.reports).map Notice.mk := by
  obtain ⟨visited, left, hsplit, hstops, heffects⟩ :=
    setting.exists_visited_run [] program.instructions.reverse
  change (program.evaluate setting).effects = _ at heffects
  have hqueries : (program.evaluate setting).queries = visited.filterMap setting.asks? := by
    rw [Outcome.queries_eq, heffects, List.filterMap_flatMap, List.filterMap_eq_flatMap_toList]
    exact congrArg (visited.flatMap ·) (funext fun instruction ↦
      (setting.observed_effectsOf instruction).1)
  refine ⟨visited, left, hsplit, hstops, hqueries, ?_⟩
  rw [Outcome.notices_eq, heffects, List.filterMap_flatMap, List.filterMap_eq_flatMap_toList,
    List.filter_flatMap, List.map_flatMap]
  exact congrArg (visited.flatMap ·) (funext fun instruction ↦
    (setting.observed_effectsOf instruction).2)

end BeamCalc
