import BeamCalc.Proofs.Evaluation.Run

/-!
# Counting the operands that are needed

How a run ends is decided by a count from the last instruction to the first. One operand is needed
at the beginning; a number or a name is one less to find, an operation on two operands one more
(`Setting.demand`). The run ends where nothing is needed any more, where an instruction has no
meaning, or before the first instruction (`Setting.verdict`). The values themselves do not matter.

`result_run` carries this through a run with pending operations: one operand is needed for each
that waits for its right one, and one for the whole program. `result_evaluate_eq_verdict` is the
case with nothing pending.
-/

set_option autoImplicit false
set_option relaxedAutoImplicit false

namespace BeamCalc

namespace Pending

/-- The operands that an operation needs besides the one that it waits for. -/
def further : Pending → Int
  | .binary _ => 1
  | .unary _ | .binaryWith _ _ => 0

/-- The operands that are needed while operations wait, the one for the whole program included. -/
def need : List Pending → Int
  | [] => 1
  | operation :: others => need others + operation.further

theorem need_pos (pending : List Pending) : 0 < need pending := by
  induction pending with
  | nil => exact Int.one_pos
  | cons operation others ih =>
    cases operation <;> simp only [need, further] <;> omega

/-- A value is the last operand that is needed if it leads to the value of the program, and one of
several if an operation goes on to wait. -/
theorem need_eq_of_supply (value : Float) (pending : List Pending) :
    need pending = match supply value pending with
      | .inl _ => 1
      | .inr others => need others + 1 := by
  fun_induction supply value pending with
  | case1 value => rfl
  | case2 value operation others ih => rw [← ih, need, further, Int.add_zero]
  | case3 value operation others => simp only [need, further, Int.add_zero]
  | case4 value operation second others ih => rw [← ih, need, further, Int.add_zero]

end Pending

namespace Setting

variable {setting : Setting} {instruction : Instruction}

/-- By how much an instruction changes the number of operands that are needed, or why it ends the
run. -/
def demand (setting : Setting) : Instruction → Except EvalError Int
  | .number _ => .ok (-1)
  | .load name =>
    if setting.policy.strict ∧ setting.vocabulary.constant name = none ∧
        setting.values name = none then
      .error (.undefinedVariable name)
    else .ok (-1)
  | .negate => .ok 0
  | .operator symbol =>
    if (setting.vocabulary.operator symbol).isSome then .ok 1 else .error (.unknownOperator symbol)
  | .function name =>
    if (setting.vocabulary.unary name).isSome then .ok 0
    else if (setting.vocabulary.binary name).isSome then .ok 1
    else .error (.unknownFunction name)

/-- How a run ends while `need` operands are needed. The index of an instruction in the program is
the number of instructions before it. -/
def verdict (setting : Setting) (need : Int) : (backward : List Instruction) → Except EvalError Unit
  | [] => .error .missingOperand
  | instruction :: earlier =>
    match setting.demand instruction with
    | .error error => .error error
    | .ok change =>
      if need + change = 0 then
        if earlier.length = 0 then .ok () else .error (.unusedInstructions earlier.length)
      else verdict setting (need + change) earlier

/-- The demand of an instruction by its contribution. -/
def Contribution.demand : Contribution → Except EvalError Int
  | .answer outcome => outcome.result.map fun _ ↦ -1
  | .operation pending => .ok pending.further

theorem demand_load (setting : Setting) (name : String) :
    setting.demand (.load name) = (setting.resolve name).result.map fun _ ↦ -1 := by
  simp only [demand, resolve]
  cases hconstant : setting.vocabulary.constant name with
  | some value => simp [Except.map]
  | none =>
    cases hvalue : setting.values name with
    | some value => simp [Except.map]
    | none =>
      cases hstrict : setting.policy.strict with
      | true => simp [Except.map]
      | false => cases setting.policy.notices <;> simp [Except.map]

theorem demand_eq (setting : Setting) (instruction : Instruction) :
    setting.demand instruction = (setting.contribution instruction).demand := by
  cases instruction with
  | number value | negate => rfl
  | load name => exact setting.demand_load name
  | operator symbol =>
    simp only [demand, contribution]
    cases setting.vocabulary.operator symbol <;> rfl
  | function name =>
    simp only [demand, contribution]
    cases setting.vocabulary.unary name with
    | some meaning => rfl
    | none => cases setting.vocabulary.binary name <;> rfl

/-- A value is one operand less to find. -/
theorem demand_of_value {value : Float} {effects : List Effect}
    (h : setting.contribution instruction = .answer ⟨.ok value, effects⟩) :
    setting.demand instruction = .ok (-1) := by
  rw [demand_eq, h, Contribution.demand, Except.map]

/-- The count goes on while something is needed. -/
theorem verdict_of_ne_zero {need change : Int} (hdemand : setting.demand instruction = .ok change)
    (hneed : need + change ≠ 0) (earlier : List Instruction) :
    setting.verdict need (instruction :: earlier) = setting.verdict (need + change) earlier := by
  simp only [verdict, hdemand]
  rw [if_neg hneed]

/-- The count ends where nothing is needed. -/
theorem verdict_of_eq_zero {need change : Int} (hdemand : setting.demand instruction = .ok change)
    (hneed : need + change = 0) (earlier : List Instruction) :
    setting.verdict need (instruction :: earlier) =
      if earlier.length = 0 then .ok () else .error (.unusedInstructions earlier.length) := by
  simp only [verdict, hdemand]
  rw [if_pos hneed]

/-- The count ends as a run does in which as many operands are needed. -/
theorem result_run (setting : Setting) (pending : List Pending) (backward : List Instruction) :
    (setting.run pending backward).result.map (fun _ ↦ ()) =
      setting.verdict (Pending.need pending) backward := by
  fun_induction setting.run pending backward with
  | case1 pending => rfl
  | case2 pending instruction earlier operation hcontribution ih =>
    -- An operation never ends the count, since what it waits for is needed as well.
    have hdemand : setting.demand instruction = .ok operation.further := by
      rw [demand_eq, hcontribution, Contribution.demand]
    have hneed : Pending.need pending + operation.further ≠ 0 :=
      Int.ne_of_gt (Pending.need_pos (operation :: pending))
    rw [ih, verdict_of_ne_zero hdemand hneed, Pending.need]
  | case3 pending instruction earlier error effects hcontribution =>
    have hdemand : setting.demand instruction = .error error := by
      rw [demand_eq, hcontribution, Contribution.demand, Except.map]
    rw [verdict, hdemand, Except.map]
  | case4 pending instruction earlier value effects hcontribution others hsupply ih =>
    -- The value is passed on until an operation waits for its left operand. All that were done on
    -- the way needed nothing more, so one less is needed now.
    have hdemand := demand_of_value hcontribution
    have hneed : Pending.need pending = Pending.need others + 1 := by
      simpa only [hsupply] using Pending.need_eq_of_supply value pending
    have hleft : Pending.need pending + -1 = Pending.need others := by omega
    have hothers : Pending.need pending + -1 ≠ 0 :=
      hleft ▸ Int.ne_of_gt (Pending.need_pos others)
    rw [Outcome.result_after, ih, verdict_of_ne_zero hdemand hothers, hleft]
  | case5 pending instruction earlier value effects hcontribution answer hsupply hlast =>
    have hdemand := demand_of_value hcontribution
    have hneed : Pending.need pending = 1 := by
      simpa only [hsupply] using Pending.need_eq_of_supply value pending
    have hleft : Pending.need pending + -1 = 0 := by omega
    have hlength : earlier.length = 0 := by rw [List.isEmpty_iff.mp hlast, List.length_nil]
    rw [verdict_of_eq_zero hdemand hleft, if_pos hlength, Except.map]
  | case6 pending instruction earlier value effects hcontribution answer hsupply hmore =>
    have hdemand := demand_of_value hcontribution
    have hneed : Pending.need pending = 1 := by
      simpa only [hsupply] using Pending.need_eq_of_supply value pending
    have hleft : Pending.need pending + -1 = 0 := by omega
    have hlength : earlier.length ≠ 0 := by
      rwa [List.isEmpty_iff, ← List.length_eq_zero_iff] at hmore
    rw [verdict_of_eq_zero hdemand hleft, if_neg hlength, Except.map]

end Setting

/-- The evaluation of a program, well-formed or not, ends as the count of the operands that are
needed, which begins with one. -/
theorem Program.result_evaluate_eq_verdict (program : Program) (setting : Setting) :
    (program.evaluate setting).result.map (fun _ ↦ ()) =
      setting.verdict 1 program.instructions.reverse :=
  setting.result_run [] program.instructions.reverse

end BeamCalc
