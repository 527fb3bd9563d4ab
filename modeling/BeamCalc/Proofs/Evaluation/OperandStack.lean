import BeamCalc.Proofs.Evaluation.Visits

/-!
# Evaluation with a stack of operands

The usual machine for programs in postfix order reads them from the first instruction to the last.
It puts numbers and the values of names on a stack, and an operation takes its operands from the
stack and puts its result there (`Setting.step`, `Program.execute`). Evaluation reads the program
the other way round and holds operations instead of values, so no step of the one is a step of the
other. What both agree on at every place of a program is `Operands`: the instructions so far end
with blocks that are one operand each, and the values of these blocks are the stack
(`operands_iff_execute`).

So evaluation has a value exactly if the machine ends with this value alone, and the notices that
are given on the way are the same in the opposite order (`evaluate_iff_execute`).
-/

set_option autoImplicit false
set_option relaxedAutoImplicit false

namespace BeamCalc

namespace Attempt

variable {first second : Type}

instance : LawfulMonad Attempt :=
  LawfulMonad.mk' Attempt
    (fun attempt ↦ by
      obtain ⟨_ | value, effects⟩ := attempt
      · rfl
      · simp [Functor.map, Attempt.bind])
    (fun value next ↦ by simp [bind, Attempt.bind, pure])
    (fun attempt next next' ↦ by
      obtain ⟨_ | value, effects⟩ := attempt
      · rfl
      · simp only [bind, Attempt.bind]
        cases (next value).result <;> simp)

theorem result_bind_eq_ok_iff {attempt : Attempt first} {next : first → Attempt second}
    {result : second} : (attempt >>= next).result = .ok result ↔
      ∃ value, attempt.result = .ok value ∧ (next value).result = .ok result := by
  obtain ⟨_ | value, effects⟩ := attempt <;> simp [bind, Attempt.bind]

theorem result_into_eq_ok_iff {attempt : Attempt first} {next : first → Outcome} {result : Float} :
    (attempt.into next).result = .ok result ↔
      ∃ value, attempt.result = .ok value ∧ (next value).result = .ok result := by
  obtain ⟨_ | value, effects⟩ := attempt <;> simp [into]

/-- All that is done in an attempt with a result is done in its parts. -/
theorem effects_bind {attempt : Attempt first} {value : first} (h : attempt.result = .ok value)
    (next : first → Attempt second) :
    (attempt >>= next).effects = attempt.effects ++ (next value).effects := by
  obtain ⟨_ | value, effects⟩ := attempt <;> cases h
  rfl

theorem result_pure_eq_ok_iff {result result' : first} :
    (pure result : Attempt first).result = .ok result' ↔ result = result' := by
  simp [pure]

/-- Takes one value from a stack, of which the top comes first, and puts the result of the operation
there. -/
def withOne (operation : Float → Float) : (stack : List Float) → Attempt (List Float)
  | value :: stack => return operation value :: stack
  | [] => .fail .missingOperand

/-- Takes the right and then the left value from a stack and puts the result of the operation
there. -/
def withTwo (operation : Float → Float → Float) : (stack : List Float) → Attempt (List Float)
  | right :: left :: stack => return operation left right :: stack
  | _ => .fail .missingOperand

end Attempt

namespace Setting

/-- What an instruction makes of a stack of operands, of which the top comes first. -/
def step (setting : Setting) (operands : List Float) : Instruction → Attempt (List Float)
  | .number value => return value :: operands
  | .load name => do
    let value ← (setting.resolve name).attempt
    return value :: operands
  | .negate => .withOne Float.neg operands
  | .operator symbol =>
    match setting.vocabulary.operator symbol with
    | some meaning => .withTwo meaning operands
    | none => .fail (.unknownOperator symbol)
  | .function name =>
    match setting.vocabulary.unary name, setting.vocabulary.binary name with
    | some meaning, _ => .withOne meaning operands
    | none, some meaning => .withTwo meaning operands
    | none, none => .fail (.unknownFunction name)

end Setting

/-- Runs a program from its first instruction to its last. The answer is the stack at the end. -/
def Program.execute (program : Program) (setting : Setting) : Attempt (List Float) :=
  program.instructions.foldlM setting.step []

namespace Setting

variable {setting : Setting} {instruction : Instruction} {earlier : List Instruction}
  {operands : List Float}

/-! ### Steps of the machine -/

theorem step_answer {outcome : Outcome} (h : setting.contribution instruction = .answer outcome) :
    setting.step operands instruction =
      outcome.attempt >>= fun value ↦ pure (value :: operands) := by
  cases instruction with
  | number value =>
    cases h
    rfl
  | load name =>
    cases h
    rfl
  | negate => cases h
  | operator symbol =>
    simp only [contribution] at h
    split at h
    · cases h
    · rename_i hunknown
      cases h
      simp only [step, hunknown]
      rfl
  | function name =>
    simp only [contribution] at h
    split at h
    · cases h
    · rename_i hunary
      split at h
      · cases h
      · rename_i hbinary
        cases h
        simp only [step, hunary, hbinary]
        rfl

theorem step_unary {operation : Float → Float}
    (h : setting.contribution instruction = .operation (.unary operation)) :
    setting.step operands instruction = .withOne operation operands := by
  cases instruction with
  | number | load => cases h
  | negate =>
    cases h
    rfl
  | operator symbol =>
    simp only [contribution] at h
    split at h <;> cases h
  | function name =>
    simp only [contribution] at h
    split at h
    · rename_i meaning hunary
      cases h
      simp only [step, hunary]
    · split at h <;> cases h

theorem step_binary {operation : Float → Float → Float}
    (h : setting.contribution instruction = .operation (.binary operation)) :
    setting.step operands instruction = .withTwo operation operands := by
  cases instruction with
  | number | load | negate => cases h
  | operator symbol =>
    simp only [contribution] at h
    split at h
    · rename_i meaning hmeaning
      cases h
      simp only [step, hmeaning]
    · cases h
  | function name =>
    simp only [contribution] at h
    split at h
    · cases h
    · rename_i hunary
      split at h
      · rename_i meaning hbinary
        cases h
        simp only [step, hunary, hbinary]
      · cases h

/-! ### Operands -/

/-- The operands that a program, of which the last instruction comes first, consists of, the last
one first. -/
inductive Operands (setting : Setting) : List Instruction → List Float → Prop where
  | nil : Operands setting [] []
  | cons {backward rest : List Instruction} {value : Float} {operands : List Float}
      (htake : (setting.take backward).result = .ok (value, rest))
      (hrest : Operands setting rest operands) : Operands setting backward (value :: operands)

/-- No operands are no instructions. -/
theorem operands_nil_iff {backward : List Instruction} :
    setting.Operands backward [] ↔ backward = [] := by
  constructor
  · rintro ⟨⟩
    rfl
  · rintro rfl
    exact .nil

/-- One operand is a whole program. -/
theorem operands_singleton_iff {backward : List Instruction} {value : Float} :
    setting.Operands backward [value] ↔ (setting.take backward).result = .ok (value, []) := by
  constructor
  · rintro (_ | ⟨htake, hrest⟩)
    rw [operands_nil_iff.mp hrest] at htake
    exact htake
  · intro htake
    exact .cons htake .nil

/-- An instruction that answers is one more operand. -/
theorem operands_answer_iff {outcome : Outcome}
    (h : setting.contribution instruction = .answer outcome) :
    setting.Operands (instruction :: earlier) operands ↔
      ∃ before, setting.Operands earlier before ∧
        (setting.step before instruction).result = .ok operands := by
  simp only [step_answer h, Attempt.result_bind_eq_ok_iff, Attempt.result_pure_eq_ok_iff]
  constructor
  · rintro (_ | ⟨htake, hrest⟩)
    rw [take_answer earlier h, Attempt.result_bind_eq_ok_iff] at htake
    obtain ⟨value, hvalue, hpure⟩ := htake
    cases hpure
    exact ⟨_, hrest, _, hvalue, rfl⟩
  · rintro ⟨before, hbefore, value, hvalue, rfl⟩
    refine .cons ?_ hbefore
    rw [take_answer earlier h, Attempt.result_bind_eq_ok_iff]
    exact ⟨value, hvalue, rfl⟩

/-- An operation on one operand takes the last one. -/
theorem operands_unary_iff {operation : Float → Float}
    (h : setting.contribution instruction = .operation (.unary operation)) :
    setting.Operands (instruction :: earlier) operands ↔
      ∃ before, setting.Operands earlier before ∧
        (setting.step before instruction).result = .ok operands := by
  simp only [step_unary h]
  constructor
  · rintro (_ | ⟨htake, hrest⟩)
    rw [take_unary earlier h, Attempt.result_bind_eq_ok_iff] at htake
    obtain ⟨⟨value, rest⟩, hvalue, hpure⟩ := htake
    cases hpure
    exact ⟨_, .cons hvalue hrest, rfl⟩
  · rintro ⟨_, _ | ⟨htake, hrest⟩, hstack⟩
    · cases hstack
    · cases hstack
      refine .cons ?_ hrest
      rw [take_unary earlier h, Attempt.result_bind_eq_ok_iff]
      exact ⟨_, htake, rfl⟩

/-- An operation on two operands takes the last two, the last one as its right operand. -/
theorem operands_binary_iff {operation : Float → Float → Float}
    (h : setting.contribution instruction = .operation (.binary operation)) :
    setting.Operands (instruction :: earlier) operands ↔
      ∃ before, setting.Operands earlier before ∧
        (setting.step before instruction).result = .ok operands := by
  simp only [step_binary h]
  constructor
  · rintro (_ | ⟨htake, hrest⟩)
    rw [take_binary earlier h, Attempt.result_bind_eq_ok_iff] at htake
    obtain ⟨⟨right, middle⟩, hright, htake⟩ := htake
    obtain ⟨⟨left, rest⟩, hleft, hpure⟩ := Attempt.result_bind_eq_ok_iff.mp htake
    cases hpure
    exact ⟨_, .cons hright (.cons hleft hrest), rfl⟩
  · rintro ⟨_, _ | ⟨hright, _ | ⟨hleft, hrest⟩⟩, hstack⟩
    · cases hstack
    · cases hstack
    · cases hstack
      refine .cons ?_ hrest
      rw [take_binary earlier h, Attempt.result_bind_eq_ok_iff]
      exact ⟨_, hright, Attempt.result_bind_eq_ok_iff.mpr ⟨_, hleft, rfl⟩⟩

/-- An instruction makes of the operands before it what the machine makes of its stack. -/
theorem operands_cons_iff :
    setting.Operands (instruction :: earlier) operands ↔
      ∃ before, setting.Operands earlier before ∧
        (setting.step before instruction).result = .ok operands :=
  match hcontribution : setting.contribution instruction with
  | .answer _ => operands_answer_iff hcontribution
  | .operation (.unary _) => operands_unary_iff hcontribution
  | .operation (.binary _) => operands_binary_iff hcontribution
  | .operation (.binaryWith _ _) => absurd hcontribution contribution_ne_binaryWith

/-- The operands of a program are what the machine has on its stack at the end of it. -/
theorem operands_iff_execute {backward : List Instruction} :
    setting.Operands backward operands ↔
      (Program.execute ⟨backward.reverse⟩ setting).result = .ok operands := by
  unfold Program.execute
  induction backward generalizing operands with
  | nil =>
    constructor
    · rintro (_ | ⟨htake, -⟩)
      · rfl
      · rw [take_nil] at htake
        cases htake
    · intro hstack
      cases hstack
      exact .nil
  | cons instruction earlier ih =>
    rw [operands_cons_iff, List.reverse_cons, List.foldlM_append, Attempt.result_bind_eq_ok_iff]
    refine exists_congr fun before ↦ and_congr ih ?_
    rw [List.foldlM_cons]
    simp only [List.foldlM_nil, bind_pure]

/-! ### Effects -/

/-- At most one notice is given at an instruction. -/
theorem reverse_notices_effectsOf (setting : Setting) (instruction : Instruction) :
    ((setting.effectsOf instruction).filterMap Effect.notice?).reverse =
      (setting.effectsOf instruction).filterMap Effect.notice? := by
  cases instruction with
  | load name =>
    simp only [effectsOf, resolve]
    cases setting.vocabulary.constant name with
    | some value => rfl
    | none =>
      cases setting.values name with
      | some value => rfl
      | none => cases setting.policy.strict <;> cases setting.policy.notices <;> rfl
  | number value | negate | operator symbol | function name => rfl

/-- The machine does at an instruction what evaluation does. -/
theorem effects_step (operands : List Float) :
    (setting.step operands instruction).effects = setting.effectsOf instruction := by
  match hcontribution : setting.contribution instruction with
  | .answer ⟨.error error, effects⟩ =>
    rw [step_answer hcontribution, effectsOf_of_answer hcontribution]
    rfl
  | .answer ⟨.ok value, effects⟩ =>
    rw [step_answer hcontribution, effectsOf_of_answer hcontribution]
    exact List.append_nil effects
  | .operation (.unary operation) =>
    rw [step_unary hcontribution, effectsOf_of_operation hcontribution]
    cases operands <;> rfl
  | .operation (.binary operation) =>
    rw [step_binary hcontribution, effectsOf_of_operation hcontribution]
    rcases operands with _ | ⟨right, _ | ⟨left, operands⟩⟩ <;> rfl
  | .operation (.binaryWith operation second) =>
    exact absurd hcontribution contribution_ne_binaryWith

/-- The machine that comes to the end of a program has done what is done at its instructions, the
first one first. -/
theorem effects_foldlM {instructions : List Instruction} {before after : List Float}
    (h : (instructions.foldlM setting.step before).result = .ok after) :
    (instructions.foldlM setting.step before).effects =
      instructions.flatMap setting.effectsOf := by
  induction instructions generalizing before with
  | nil => rfl
  | cons instruction others ih =>
    rw [List.foldlM_cons, Attempt.result_bind_eq_ok_iff] at h
    obtain ⟨middle, hmiddle, hothers⟩ := h
    rw [List.foldlM_cons, Attempt.effects_bind hmiddle, ih hothers, effects_step,
      List.flatMap_cons]

end Setting

namespace Program

variable {program : Program} {setting : Setting} {value : Float}

/-- Evaluation has the value of the one operand that a program consists of. -/
theorem result_evaluate_iff_operands : (program.evaluate setting).result = .ok value ↔
    setting.Operands program.instructions.reverse [value] := by
  rw [evaluate_eq_into, Attempt.result_into_eq_ok_iff, Setting.operands_singleton_iff]
  constructor
  · rintro ⟨⟨answer, rest⟩, htake, hvalue⟩
    dsimp only at hvalue
    split at hvalue
    · rename_i hempty
      cases hvalue
      rw [htake, List.isEmpty_iff.mp hempty]
    · cases hvalue
  · intro htake
    exact ⟨(value, []), htake, rfl⟩

/-- The same notices are given at each instruction, so they come in the opposite order. -/
theorem notices_execute (hvalue : (program.evaluate setting).result = .ok value)
    {operands : List Float} (hoperands : (program.execute setting).result = .ok operands) :
    (program.execute setting).notices = (program.evaluate setting).notices.reverse := by
  have hbackward : (program.evaluate setting).effects =
      program.instructions.reverse.flatMap setting.effectsOf := Setting.effects_run hvalue
  have hforward : (program.execute setting).effects =
      program.instructions.flatMap setting.effectsOf := Setting.effects_foldlM hoperands
  rw [Attempt.notices, Outcome.notices_eq, hbackward, hforward, List.filterMap_flatMap,
    List.filterMap_flatMap, List.reverse_flatMap, List.reverse_reverse]
  refine congrArg (fun notices ↦ program.instructions.flatMap notices) (funext fun instruction ↦ ?_)
  exact (setting.reverse_notices_effectsOf instruction).symm

/-- A program, well-formed or not, evaluates to a value exactly if the machine with a stack ends
with this value alone, and then the notices of the machine are those of evaluation in the opposite
order. -/
theorem evaluate_iff_execute (program : Program) (setting : Setting) (value : Float) :
    ((program.evaluate setting).result = .ok value ↔
      (program.execute setting).result = .ok [value]) ∧
    ((program.evaluate setting).result = .ok value →
      (program.execute setting).notices = (program.evaluate setting).notices.reverse) := by
  have hiff : (program.evaluate setting).result = .ok value ↔
      (program.execute setting).result = .ok [value] := by
    rw [result_evaluate_iff_operands, Setting.operands_iff_execute, List.reverse_reverse]
  exact ⟨hiff, fun hvalue ↦ notices_execute hvalue (hiff.mp hvalue)⟩

/-- The difference of two names without values. Evaluation comes to the second one first. -/
theorem evaluate_iff_execute_difference :
    (evaluate ⟨[.load "x", .load "y", .operator '-']⟩ ⟨.standard, {}, fun _ ↦ none⟩).result =
      .ok (0 - 0) ∧
    (evaluate ⟨[.load "x", .load "y", .operator '-']⟩ ⟨.standard, {}, fun _ ↦ none⟩).notices =
      [⟨"y"⟩, ⟨"x"⟩] ∧
    (execute ⟨[.load "x", .load "y", .operator '-']⟩ ⟨.standard, {}, fun _ ↦ none⟩).notices =
      [⟨"x"⟩, ⟨"y"⟩] := by
  have hvalue : (evaluate ⟨[.load "x", .load "y", .operator '-']⟩
      ⟨.standard, {}, fun _ ↦ none⟩).result = .ok (0 - 0) := rfl
  obtain ⟨-, hreversed⟩ := evaluate_iff_execute ⟨[.load "x", .load "y", .operator '-']⟩
    ⟨.standard, {}, fun _ ↦ none⟩ (0 - 0)
  refine ⟨hvalue, rfl, ?_⟩
  rw [hreversed hvalue]
  rfl

end Program

end BeamCalc
