import BeamCalc.Proofs.Evaluation.Recursion
import BeamCalc.Proofs.Vocabulary.Extension

/-!
# Evaluating instructions in postfix order

`Postfix` says that instructions are one expression in postfix order, where a function takes as many
operands as a call of it has arguments. Under a consistent vocabulary such instructions are
evaluated alone, whatever stands before them (`Setting.Yields`). So the outcome of an operation is
put together from the outcomes of its operands, of which the right one is evaluated first
(`Outcome.combine`), and evaluation fails exactly at the last instruction that refuses to answer
(`Postfix.error?_evaluate`).
-/

set_option autoImplicit false
set_option relaxedAutoImplicit false

namespace BeamCalc

/-! ### Operands -/

/-- The number of operands that an instruction takes, as far as the grammar knows. -/
def Vocabulary.operands (vocabulary : Vocabulary) : Instruction → Nat
  | .number _ | .load _ => 0
  | .negate => 1
  | .operator _ => 2
  | .function name => vocabulary.arity name

/-- Instructions of one expression, operands before the instruction that takes them. -/
inductive Postfix (vocabulary : Vocabulary) : List Instruction → Prop where
  | operand {instruction : Instruction} (hoperands : vocabulary.operands instruction = 0) :
    Postfix vocabulary [instruction]
  | unary {block : List Instruction} {instruction : Instruction}
      (hoperands : vocabulary.operands instruction = 1) (hblock : Postfix vocabulary block) :
    Postfix vocabulary (block ++ [instruction])
  | binary {left right : List Instruction} {instruction : Instruction}
      (hoperands : vocabulary.operands instruction = 2) (hleft : Postfix vocabulary left)
      (hright : Postfix vocabulary right) :
    Postfix vocabulary (left ++ (right ++ [instruction]))

/-- An instruction takes two operands at most. -/
theorem Vocabulary.operands_le_two (vocabulary : Vocabulary) (instruction : Instruction) :
    vocabulary.operands instruction ≤ 2 := by
  cases instruction with
  | function name =>
    change vocabulary.arity name ≤ 2
    rcases vocabulary.arity_eq_one_or_two name with harity | harity <;> omega
  | number | load | operator | negate => simp [operands]

/-- An instruction behind as many expressions as it takes operands. -/
theorem Postfix.join {vocabulary : Vocabulary} {instruction : Instruction}
    {blocks : List (List Instruction)} (hlength : blocks.length = vocabulary.operands instruction)
    (hblocks : ∀ block ∈ blocks, Postfix vocabulary block) :
    Postfix vocabulary (blocks.flatten ++ [instruction]) := by
  match blocks with
  | [] => exact .operand hlength.symm
  | [block] =>
    rw [List.flatten_singleton]
    exact .unary hlength.symm (hblocks block (by simp))
  | [left, right] =>
    have hflat : [left, right].flatten ++ [instruction] = left ++ (right ++ [instruction]) := by
      simp
    rw [hflat]
    exact .binary hlength.symm (hblocks left (by simp)) (hblocks right (by simp))
  | _ :: _ :: _ :: others =>
    have htwo := vocabulary.operands_le_two instruction
    rw [← hlength] at htwo
    simp at htwo

namespace Outcome

/-- Why there is no result. -/
def error? (outcome : Outcome) : Option EvalError :=
  match outcome.result with
  | .error error => some error
  | .ok _ => none

theorem error?_eq_some_iff {outcome : Outcome} {error : EvalError} :
    outcome.error? = some error ↔ outcome.result = .error error := by
  obtain ⟨_ | value, effects⟩ := outcome <;> simp [error?]

theorem error?_eq_none_iff {outcome : Outcome} :
    outcome.error? = none ↔ ∃ value, outcome.result = .ok value := by
  obtain ⟨_ | value, effects⟩ := outcome <;> simp [error?]

/-- The outcome of an operation on one operand. -/
def map (operation : Float → Float) (operand : Outcome) : Outcome :=
  ⟨operand.result.map operation, operand.effects⟩

/-- The outcome of an operation on two operands. The right one is evaluated first, the left one only
if the right one has a value. -/
def combine (operation : Float → Float → Float) (left right : Outcome) : Outcome :=
  match right.result with
  | .error error => ⟨.error error, right.effects⟩
  | .ok second => (left.map fun first ↦ operation first second).after right.effects

theorem error?_map (operation : Float → Float) (operand : Outcome) :
    (operand.map operation).error? = operand.error? := by
  obtain ⟨_ | value, effects⟩ := operand <;> rfl

theorem error?_combine (operation : Float → Float → Float) (left right : Outcome) :
    (combine operation left right).error? = right.error?.or left.error? := by
  obtain ⟨_ | second, effects⟩ := right
  · rfl
  · obtain ⟨_ | first, effects'⟩ := left <;> rfl

end Outcome

namespace Setting

variable {setting : Setting} {instruction : Instruction} {block left right : List Instruction}
  {outcome outcome' : Outcome}

/-! ### Contributions by the number of operands -/

/-- An instruction without operands answers. -/
theorem contribution_of_operands_eq_zero
    (hoperands : setting.vocabulary.operands instruction = 0) :
    ∃ outcome, setting.contribution instruction = .answer outcome := by
  cases instruction with
  | number value => exact ⟨_, rfl⟩
  | load name => exact ⟨_, rfl⟩
  | negate | operator symbol => cases hoperands
  | function name =>
    change setting.vocabulary.arity name = 0 at hoperands
    unfold Vocabulary.arity at hoperands
    split at hoperands <;> cases hoperands

/-- An instruction with one operand is an operation on it, or it refuses to answer. -/
theorem contribution_of_operands_eq_one
    (hoperands : setting.vocabulary.operands instruction = 1) :
    (∃ operation, setting.contribution instruction = .operation (.unary operation)) ∨
      ∃ error, setting.contribution instruction = .answer ⟨.error error, []⟩ := by
  cases instruction with
  | number value | load name | operator symbol => cases hoperands
  | negate => exact Or.inl ⟨_, rfl⟩
  | function name =>
    have hbinary := Vocabulary.binary_eq_none_of_arity_eq_one hoperands
    match hunary : setting.vocabulary.unary name with
    | some meaning => exact Or.inl ⟨meaning, by simp only [contribution, hunary]⟩
    | none =>
      exact Or.inr ⟨.unknownFunction name, by simp only [contribution, hunary, hbinary]⟩

/-- An instruction with two operands is an operation on them, or it refuses to answer. -/
theorem contribution_of_operands_eq_two (hconsistent : setting.vocabulary.IsConsistent)
    (hoperands : setting.vocabulary.operands instruction = 2) :
    (∃ operation, setting.contribution instruction = .operation (.binary operation)) ∨
      ∃ error, setting.contribution instruction = .answer ⟨.error error, []⟩ := by
  cases instruction with
  | number value | load name | negate => cases hoperands
  | operator symbol =>
    match hoperator : setting.vocabulary.operator symbol with
    | some meaning => exact Or.inl ⟨meaning, by simp only [contribution, hoperator]⟩
    | none => exact Or.inr ⟨.unknownOperator symbol, by simp only [contribution, hoperator]⟩
  | function name =>
    obtain ⟨hunary, meaning, hbinary⟩ := hconsistent.of_arity_eq_two hoperands
    exact Or.inl ⟨meaning, by simp only [contribution, hunary, hbinary]⟩

/-! ### Evaluation of a part -/

/-- Instructions are evaluated alone, with the given outcome, whatever stands before them. -/
def Yields (setting : Setting) (block : List Instruction) (outcome : Outcome) : Prop :=
  ∀ earlier, setting.take (block.reverse ++ earlier) =
    outcome.attempt.map fun value ↦ (value, earlier)

namespace Yields

/-- A program that is evaluated alone has the outcome. -/
theorem evaluate_eq (h : setting.Yields block outcome) :
    Program.evaluate ⟨block⟩ setting = outcome := by
  have hwhole := h []
  rw [List.append_nil] at hwhole
  rw [Program.evaluate_eq_into, hwhole]
  obtain ⟨_ | value, effects⟩ := outcome
  · rfl
  · simp [Outcome.attempt, Attempt.map, Attempt.into, Outcome.after, Except.map]

/-- An instruction that answers. -/
theorem answer (hinstruction : setting.contribution instruction = .answer outcome) :
    setting.Yields [instruction] outcome := by
  intro earlier
  change setting.take (instruction :: earlier) = _
  rw [take_answer earlier hinstruction]
  obtain ⟨_ | value, effects⟩ := outcome
  · rfl
  · simp [Outcome.attempt, Attempt.map, bind, Attempt.bind, pure, Except.map]

/-- An instruction that refuses to answer does so whatever its operands are. -/
theorem refused {error : EvalError} (block : List Instruction)
    (hinstruction : setting.contribution instruction = .answer ⟨.error error, []⟩) :
    setting.Yields (block ++ [instruction]) ⟨.error error, []⟩ := by
  intro earlier
  rw [List.reverse_append, List.reverse_singleton, List.singleton_append, List.cons_append,
    take_answer _ hinstruction]
  rfl

/-- An operation on one operand. -/
theorem unary {operation : Float → Float}
    (hinstruction : setting.contribution instruction = .operation (.unary operation))
    (hblock : setting.Yields block outcome) :
    setting.Yields (block ++ [instruction]) (outcome.map operation) := by
  intro earlier
  rw [List.reverse_append, List.reverse_singleton, List.singleton_append, List.cons_append,
    take_unary _ hinstruction, hblock earlier]
  obtain ⟨_ | value, effects⟩ := outcome
  · rfl
  · simp [Outcome.attempt, Outcome.map, Attempt.map, bind, Attempt.bind, pure, Except.map]

/-- An operation on two operands. -/
theorem binary {operation : Float → Float → Float}
    (hinstruction : setting.contribution instruction = .operation (.binary operation))
    (hleft : setting.Yields left outcome) (hright : setting.Yields right outcome') :
    setting.Yields (left ++ (right ++ [instruction]))
      (Outcome.combine operation outcome outcome') := by
  intro earlier
  have hreverse : (left ++ (right ++ [instruction])).reverse ++ earlier =
      instruction :: (right.reverse ++ (left.reverse ++ earlier)) := by simp
  rw [hreverse, take_binary _ hinstruction, hright]
  obtain ⟨_ | second, effects⟩ := outcome'
  · rfl
  · change (Attempt.mk (.ok (second, left.reverse ++ earlier)) effects >>= _) = _
    simp only [bind, Attempt.bind]
    rw [hleft]
    obtain ⟨_ | first, effects'⟩ := outcome <;>
      simp [Outcome.attempt, Outcome.map, Outcome.combine, Outcome.after, Attempt.map, pure,
        Except.map]

end Yields

/-! ### Refusals -/

/-- Why an instruction by itself refuses to answer. -/
def refusal? (setting : Setting) (instruction : Instruction) : Option EvalError :=
  match setting.contribution instruction with
  | .answer outcome => outcome.error?
  | .operation _ => none

end Setting

namespace Postfix

variable {setting : Setting} {block : List Instruction}

/-- Instructions in postfix order are evaluated alone, and the last one that refuses to answer is
the first one that is met. -/
theorem exists_yields (hconsistent : setting.vocabulary.IsConsistent)
    (h : Postfix setting.vocabulary block) :
    ∃ outcome, setting.Yields block outcome ∧
      outcome.error? = block.reverse.findSome? setting.refusal? := by
  induction h with
  | operand hoperands =>
    obtain ⟨outcome, hanswer⟩ := Setting.contribution_of_operands_eq_zero hoperands
    refine ⟨outcome, .answer hanswer, ?_⟩
    simp [Setting.refusal?, hanswer]
  | @unary block instruction hoperands hblock ih =>
    obtain ⟨outcome, hyields, herror⟩ := ih
    rcases Setting.contribution_of_operands_eq_one hoperands with
      ⟨operation, hoperation⟩ | ⟨error, hrefused⟩
    · refine ⟨_, hyields.unary hoperation, ?_⟩
      rw [Outcome.error?_map, herror]
      simp [Setting.refusal?, hoperation]
    · refine ⟨_, .refused block hrefused, ?_⟩
      simp [Setting.refusal?, hrefused, Outcome.error?]
  | @binary left right instruction hoperands hleft hright ihleft ihright =>
    obtain ⟨outcome, hyields, herror⟩ := ihleft
    obtain ⟨outcome', hyields', herror'⟩ := ihright
    rcases Setting.contribution_of_operands_eq_two hconsistent hoperands with
      ⟨operation, hoperation⟩ | ⟨error, hrefused⟩
    · refine ⟨_, .binary hoperation hyields hyields', ?_⟩
      rw [Outcome.error?_combine, herror, herror']
      simp [Setting.refusal?, hoperation, List.findSome?_append]
    · rw [← List.append_assoc]
      refine ⟨_, .refused _ hrefused, ?_⟩
      simp [Setting.refusal?, hrefused, Outcome.error?]

/-- Instructions in postfix order yield what they evaluate to as a program. -/
theorem yields_evaluate (hconsistent : setting.vocabulary.IsConsistent)
    (h : Postfix setting.vocabulary block) :
    setting.Yields block (Program.evaluate ⟨block⟩ setting) := by
  obtain ⟨outcome, hyields, -⟩ := h.exists_yields hconsistent
  rw [hyields.evaluate_eq]
  exact hyields

/-- An operation on one operand is evaluated after it. -/
theorem evaluate_unary (hconsistent : setting.vocabulary.IsConsistent)
    (h : Postfix setting.vocabulary block) {instruction : Instruction} {operation : Float → Float}
    (hinstruction : setting.contribution instruction = .operation (.unary operation)) :
    Program.evaluate ⟨block ++ [instruction]⟩ setting =
      (Program.evaluate ⟨block⟩ setting).map operation :=
  ((h.yields_evaluate hconsistent).unary hinstruction).evaluate_eq

/-- An operation on two operands is evaluated after both. -/
theorem evaluate_binary (hconsistent : setting.vocabulary.IsConsistent)
    {left right : List Instruction} (hleft : Postfix setting.vocabulary left)
    (hright : Postfix setting.vocabulary right) {instruction : Instruction}
    {operation : Float → Float → Float}
    (hinstruction : setting.contribution instruction = .operation (.binary operation)) :
    Program.evaluate ⟨left ++ right ++ [instruction]⟩ setting =
      .combine operation (Program.evaluate ⟨left⟩ setting) (Program.evaluate ⟨right⟩ setting) := by
  rw [List.append_assoc]
  exact ((hleft.yields_evaluate hconsistent).binary hinstruction
    (hright.yields_evaluate hconsistent)).evaluate_eq

/-- The evaluation of instructions in postfix order fails exactly at the last instruction that
refuses to answer. -/
theorem error?_evaluate (hconsistent : setting.vocabulary.IsConsistent)
    (h : Postfix setting.vocabulary block) :
    (Program.evaluate ⟨block⟩ setting).error? = block.reverse.findSome? setting.refusal? := by
  obtain ⟨outcome, hyields, herror⟩ := h.exists_yields hconsistent
  rw [hyields.evaluate_eq]
  exact herror

end Postfix

end BeamCalc
