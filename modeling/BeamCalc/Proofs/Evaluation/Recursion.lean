import BeamCalc.Evaluation

/-!
# Recursive evaluation

The value of a program may be found by recursion instead of a list of pending operations: the last
instruction is taken off, and if it is an operation, its operands are evaluated in the same way
from the instructions before it, the right one of two first. `Setting.operand` is this recursion
and `Program.evaluateRecursively` the evaluation of a whole program by it.

`run_eq_into` relates it to the run with pending operations: a run finds the value of one operand,
recursively, and hands it to the operation that waits for it. With nothing pending this is
`evaluate_eq_evaluateRecursively`.
-/

set_option autoImplicit false
set_option relaxedAutoImplicit false

namespace BeamCalc

/-! ### Attempts -/

/-- A part of an evaluation: its result, or the reason why there is none, and what it did on the
way. -/
structure Attempt (result : Type) where
  result : Except EvalError result
  effects : List Effect

namespace Attempt

variable {first second third : Type}

/-- An attempt that uses the result of another one. -/
protected def bind (attempt : Attempt first) (next : first → Attempt second) : Attempt second :=
  match attempt.result with
  | .error error => ⟨.error error, attempt.effects⟩
  | .ok result => ⟨(next result).result, attempt.effects ++ (next result).effects⟩

instance : Monad Attempt where
  pure result := ⟨.ok result, []⟩
  bind := Attempt.bind

/-- An attempt that fails at once. -/
def fail (error : EvalError) : Attempt first :=
  ⟨.error error, []⟩

/-- What becomes of an evaluation that begins with an attempt and goes on with its result. -/
def into (attempt : Attempt first) (next : first → Outcome) : Outcome :=
  match attempt.result with
  | .error error => ⟨.error error, attempt.effects⟩
  | .ok result => (next result).after attempt.effects

/-- An attempt with another result. -/
def map (change : first → second) (attempt : Attempt first) : Attempt second :=
  ⟨attempt.result.map change, attempt.effects⟩

theorem map_bind (change : second → third) (attempt : Attempt first)
    (next : first → Attempt second) :
    (attempt >>= next).map change = attempt >>= fun result ↦ (next result).map change := by
  obtain ⟨_ | result, effects⟩ := attempt <;> rfl

theorem bind_map (change : first → second) (attempt : Attempt first)
    (next : second → Attempt third) :
    attempt.map change >>= next = attempt >>= fun result ↦ next (change result) := by
  obtain ⟨_ | result, effects⟩ := attempt <;> rfl

/-- What goes on with two attempts goes on with the first and then the second. -/
theorem into_bind (attempt : Attempt first) (step : first → Attempt second)
    (next : second → Outcome) :
    (attempt >>= step).into next = attempt.into fun result ↦ (step result).into next := by
  obtain ⟨_ | result, effects⟩ := attempt
  · rfl
  · change (Attempt.into ⟨(step result).result, effects ++ (step result).effects⟩ next) =
      ((step result).into next).after effects
    obtain ⟨_ | result', effects'⟩ := step result
    · rfl
    · simp [into, Outcome.after]

/-- Only what goes on with the result of an attempt matters. -/
theorem into_congr {attempt : Attempt first} {next next' : first → Outcome}
    (h : ∀ result, attempt.result = .ok result → next result = next' result) :
    attempt.into next = attempt.into next' := by
  obtain ⟨_ | result, effects⟩ := attempt
  · rfl
  · exact congrArg (Outcome.after effects) (h result rfl)

end Attempt

/-- The outcome of a name or a program as a part of another evaluation. -/
def Outcome.attempt (outcome : Outcome) : Attempt Float :=
  ⟨outcome.result, outcome.effects⟩

/-! ### The recursion -/

/-- The instructions that an operand leaves, of which there are less than `bound`. -/
abbrev Remaining (bound : Nat) := { rest : List Instruction // rest.length < bound }

/-- Evaluates the operand at the end of a program, of which the last instruction comes first. The
answer is its value and the instructions before it. -/
def Setting.operand (setting : Setting) :
    (backward : List Instruction) → Attempt (Float × Remaining backward.length)
  | [] => .fail .missingOperand
  | .number value :: earlier => return (value, ⟨earlier, by simp⟩)
  | .load name :: earlier => do
    let value ← (setting.resolve name).attempt
    return (value, ⟨earlier, by simp⟩)
  | .negate :: earlier => do
    let (value, ⟨rest, shorter⟩) ← setting.operand earlier
    return (-value, ⟨rest, by simp; omega⟩)
  | .operator symbol :: earlier =>
    match setting.vocabulary.operator symbol with
    | none => .fail (.unknownOperator symbol)
    | some meaning => do
      let (right, ⟨rest, shorter⟩) ← setting.operand earlier
      let (left, ⟨rest, shorter⟩) ← setting.operand rest
      return (meaning left right, ⟨rest, by simp; omega⟩)
  | .function name :: earlier =>
    match setting.vocabulary.unary name, setting.vocabulary.binary name with
    | some meaning, _ => do
      let (value, ⟨rest, shorter⟩) ← setting.operand earlier
      return (meaning value, ⟨rest, by simp; omega⟩)
    | none, some meaning => do
      let (right, ⟨rest, shorter⟩) ← setting.operand earlier
      let (left, ⟨rest, shorter⟩) ← setting.operand rest
      return (meaning left right, ⟨rest, by simp; omega⟩)
    | none, none => .fail (.unknownFunction name)
termination_by backward => backward.length
decreasing_by all_goals (simp only [List.length_cons]; omega)

/-- Evaluates a program recursively. Its operand has to be the whole of it. -/
def Program.evaluateRecursively (program : Program) (setting : Setting) : Outcome :=
  (setting.operand program.instructions.reverse).into fun (value, rest) ↦
    if rest.val.isEmpty then ⟨.ok value, []⟩
    else ⟨.error (.unusedInstructions rest.val.length), []⟩

namespace Setting

variable (setting : Setting)

/-! ### The recursion without bounds -/

/-- Evaluates the operand at the end of a program. -/
def take (backward : List Instruction) : Attempt (Float × List Instruction) :=
  (setting.operand backward).map fun (value, rest) ↦ (value, rest.val)

variable {setting} {instruction : Instruction} (earlier : List Instruction)

/-- An operand is not empty. -/
theorem length_lt_of_take {backward rest : List Instruction} {value : Float}
    (h : (setting.take backward).result = .ok (value, rest)) : rest.length < backward.length := by
  unfold take at h
  generalize setting.operand backward = attempt at h
  obtain ⟨_ | read, effects⟩ := attempt
  · cases h
  · cases h
    exact read.2.property

theorem take_nil : setting.take [] = .fail .missingOperand := by
  rw [take, operand]
  rfl

/-- An instruction that answers is an operand. -/
theorem take_answer {outcome : Outcome}
    (h : setting.contribution instruction = .answer outcome) :
    setting.take (instruction :: earlier) =
      outcome.attempt >>= fun value ↦ pure (value, earlier) := by
  cases instruction with
  | number value =>
    cases h
    rw [take, operand]
    rfl
  | load name =>
    cases h
    rw [take, operand]
    obtain ⟨_ | value, effects⟩ := setting.resolve name <;> rfl
  | negate => cases h
  | operator symbol =>
    simp only [contribution] at h
    split at h
    · cases h
    · rename_i hunknown
      cases h
      rw [take, operand, hunknown]
      rfl
  | function name =>
    simp only [contribution] at h
    split at h
    · cases h
    · rename_i hunary
      split at h
      · cases h
      · rename_i hbinary
        cases h
        rw [take, operand, hunary, hbinary]
        rfl

/-- An operation on one operand. -/
theorem take_unary {operation : Float → Float}
    (h : setting.contribution instruction = .operation (.unary operation)) :
    setting.take (instruction :: earlier) =
      setting.take earlier >>= fun (value, rest) ↦ pure (operation value, rest) := by
  cases instruction with
  | number | load => cases h
  | negate =>
    cases h
    rw [take, take, operand, Attempt.map_bind, Attempt.bind_map]
    rfl
  | operator symbol =>
    simp only [contribution] at h
    split at h <;> cases h
  | function name =>
    simp only [contribution] at h
    split at h
    · rename_i meaning hmeaning
      cases h
      rw [take, take, operand, hmeaning, Attempt.map_bind, Attempt.bind_map]
      rfl
    · split at h <;> cases h

/-- Two operands, of which the right one comes first. -/
theorem take_two {bound : Nat} (operation : Float → Float → Float)
    (hshorter : ∀ {rest rest' : List Instruction}, rest.length < earlier.length →
      rest'.length < rest.length → rest'.length < bound) :
    ((setting.operand earlier >>= fun (right, ⟨rest, hrest⟩) ↦
        setting.operand rest >>= fun (left, ⟨rest', hrest'⟩) ↦
          pure (operation left right, (⟨rest', hshorter hrest hrest'⟩ : Remaining bound))).map
      fun (value, rest) ↦ (value, rest.val)) =
      setting.take earlier >>= fun (right, rest) ↦
        setting.take rest >>= fun (left, rest) ↦ pure (operation left right, rest) := by
  rw [take, Attempt.map_bind, Attempt.bind_map]
  congr 1
  funext ⟨right, rest, hrest⟩
  change Attempt.map _ (setting.operand rest >>= _) = setting.take rest >>= _
  rw [take, Attempt.map_bind, Attempt.bind_map]
  rfl

/-- An operation on two operands, of which the right one comes first. -/
theorem take_binary {operation : Float → Float → Float}
    (h : setting.contribution instruction = .operation (.binary operation)) :
    setting.take (instruction :: earlier) =
      setting.take earlier >>= fun (right, rest) ↦
        setting.take rest >>= fun (left, rest) ↦ pure (operation left right, rest) := by
  cases instruction with
  | number | load | negate => cases h
  | operator symbol =>
    simp only [contribution] at h
    split at h
    · rename_i meaning hmeaning
      cases h
      rw [take, operand, hmeaning]
      exact take_two earlier operation fun h h' ↦ Nat.lt_succ_of_lt (Nat.lt_trans h' h)
    · cases h
  | function name =>
    simp only [contribution] at h
    split at h
    · cases h
    · rename_i hunary
      split at h
      · rename_i meaning hbinary
        cases h
        rw [take, operand, hunary, hbinary]
        exact take_two earlier operation fun h h' ↦ Nat.lt_succ_of_lt (Nat.lt_trans h' h)
      · cases h

/-- What an operation that waits makes of the value of its operand: it goes on with the
instructions before it, or it ends the evaluation if nothing else waits. -/
def proceed (setting : Setting) (pending : List Pending) (value : Float)
    (rest : List Instruction) : Outcome :=
  match Pending.supply value pending with
  | .inr pending => setting.run pending rest
  | .inl value =>
    if rest.isEmpty then ⟨.ok value, []⟩ else ⟨.error (.unusedInstructions rest.length), []⟩

/-- No operation begins with its right operand. -/
theorem contribution_ne_binaryWith {operation : Float → Float → Float} {second : Float} :
    setting.contribution instruction ≠ .operation (.binaryWith operation second) := by
  intro h
  cases instruction with
  | number | load | negate => cases h
  | operator symbol =>
    simp only [contribution] at h
    split at h <;> cases h
  | function name =>
    simp only [contribution] at h
    split at h
    · cases h
    · split at h <;> cases h

/-- A run finds the value of an operand and hands it to the operation that waits for it. -/
theorem run_eq_into (pending : List Pending) (backward : List Instruction) :
    setting.run pending backward =
      (setting.take backward).into fun (value, rest) ↦ setting.proceed pending value rest := by
  match backward with
  | [] =>
    rw [take_nil]
    rfl
  | instruction :: earlier =>
    rw [run]
    match hcontribution : setting.contribution instruction with
    | .answer ⟨.error error, effects⟩ =>
      rw [take_answer earlier hcontribution]
      rfl
    | .answer ⟨.ok value, effects⟩ =>
      rw [take_answer earlier hcontribution, Attempt.into_bind]
      change _ = (setting.proceed pending value earlier).after effects
      dsimp only [proceed]
      cases Pending.supply value pending with
      | inr pending => rfl
      | inl value =>
        by_cases hall : earlier.isEmpty <;> simp [hall, Outcome.after]
    | .operation (.unary operation) =>
      rw [take_unary earlier hcontribution]
      rw [Attempt.into_bind]
      exact run_eq_into _ earlier
    | .operation (.binary operation) =>
      rw [take_binary earlier hcontribution, Attempt.into_bind]
      dsimp only
      rw [run_eq_into _ earlier]
      refine Attempt.into_congr fun (right, rest) hright ↦ ?_
      have hshorter := length_lt_of_take hright
      change setting.run (.binaryWith operation right :: pending) rest = _
      rw [Attempt.into_bind]
      exact run_eq_into _ rest
    | .operation (.binaryWith operation second) =>
      exact absurd hcontribution contribution_ne_binaryWith
termination_by backward.length

end Setting

namespace Program

/-- A program is evaluated as one operand, which has to be the whole of it. -/
theorem evaluate_eq_into (program : Program) (setting : Setting) :
    program.evaluate setting =
      (setting.take program.instructions.reverse).into fun (value, rest) ↦
        if rest.isEmpty then ⟨.ok value, []⟩
        else ⟨.error (.unusedInstructions rest.length), []⟩ :=
  Setting.run_eq_into [] program.instructions.reverse

/-- Pending operations and recursion give the same result and the same effects, for programs that
are well-formed and for all others. -/
theorem evaluate_eq_evaluateRecursively (program : Program) (setting : Setting) :
    program.evaluate setting = program.evaluateRecursively setting := by
  rw [evaluate_eq_into, evaluateRecursively, Setting.take]
  generalize setting.operand program.instructions.reverse = attempt
  obtain ⟨_ | ⟨value, rest⟩, effects⟩ := attempt <;> rfl

end Program

end BeamCalc
