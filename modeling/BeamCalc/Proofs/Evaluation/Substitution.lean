import BeamCalc.Proofs.Evaluation.Agreement
import BeamCalc.Proofs.Evaluation.Postfix

/-!
# Substituting a program for a name

Wherever a program reads a name, the instructions of another one may stand instead
(`Program.substitute`). The instructions that are put in are evaluated alone, so they answer with
their value whatever operations wait for it. If the name is no constant, the result is therefore
that of the program for which the name has this value (`Postfix.result_evaluate_substitute`), also
where the instructions that are put in read the name themselves: they are evaluated before it has
the value.
-/

set_option autoImplicit false
set_option relaxedAutoImplicit false

namespace BeamCalc

/-- An instruction, or the instructions that stand instead of it if it reads the name. -/
def Instruction.substitute (name : String) (inner : List Instruction) :
    Instruction → List Instruction
  | .load other => if other = name then inner else [.load other]
  | instruction => [instruction]

/-- The program in which `inner` stands wherever the name is read. -/
def Program.substitute (program : Program) (name : String) (inner : Program) : Program :=
  ⟨program.instructions.flatMap (Instruction.substitute name inner.instructions)⟩

namespace Outcome

variable {outcome outcome' left left' right right' : Outcome}

/-- The result of an operation on one operand depends only on its result. -/
theorem result_map_congr (operation : Float → Float) (h : outcome.result = outcome'.result) :
    (outcome.map operation).result = (outcome'.map operation).result :=
  congrArg (Except.map operation) h

/-- The result of an operation on two operands depends only on their results. -/
theorem result_combine_congr (operation : Float → Float → Float)
    (hleft : left.result = left'.result) (hright : right.result = right'.result) :
    (combine operation left right).result = (combine operation left' right').result := by
  unfold combine
  rw [hright]
  cases right'.result with
  | error error => rfl
  | ok second => exact result_map_congr _ hleft

end Outcome

namespace Setting

variable {setting : Setting} {instruction : Instruction} {name : String} {value : Float}

/-- The same setting, in which a variable has the value. -/
def assign (setting : Setting) (name : String) (value : Float) : Setting :=
  { setting with values := setting.values.set name (some value) }

/-- Only the instructions that read a name ask for the values of variables. -/
theorem contribution_assign (h : ∀ other, instruction ≠ .load other) :
    (setting.assign name value).contribution instruction = setting.contribution instruction :=
  contribution_congr rfl fun other hother ↦ absurd hother (h other)

/-- Another name reads what it did. -/
theorem resolve_assign_of_ne {other : String} (h : other ≠ name) :
    (setting.assign name value).resolve other = setting.resolve other :=
  resolve_congr rfl rfl fun _ ↦ Table.set_other _ _ h

/-- A name that is no constant reads the value that it was given. -/
theorem resolve_assign_same (h : setting.vocabulary.constant name = none) :
    (setting.assign name value).resolve name = ⟨.ok value, [.query name]⟩ := by
  have hconstant : (setting.assign name value).vocabulary.constant name = none := h
  exact resolve_of_value hconstant (Table.set_same _ _ _)

end Setting

namespace Postfix

variable {setting : Setting} {name : String} {value : Float} {block inner : List Instruction}
  {outcome : Outcome}

/-- An instruction with operands is no reading of a name, so nothing is substituted for it. -/
theorem ne_load_of_operands {vocabulary : Vocabulary} {instruction : Instruction} {count : Nat}
    (h : vocabulary.operands instruction = count + 1) (other : String) :
    instruction ≠ .load other := by
  rintro rfl
  cases h

theorem substitute_of_ne_load {instruction : Instruction}
    (h : ∀ other, instruction ≠ .load other) :
    instruction.substitute name inner = [instruction] := by
  cases instruction with
  | load other => exact absurd rfl (h other)
  | number | negate | operator | function => rfl

/-- The instructions of one expression with a block of the right value instead of a name, and the
same instructions where the name has this value, are evaluated alone and have the same result. -/
theorem exists_yields_substitute (hconsistent : setting.vocabulary.IsConsistent)
    (hname : setting.vocabulary.constant name = none) (hinner : setting.Yields inner outcome)
    (hvalue : outcome.result = .ok value) (h : Postfix setting.vocabulary block) :
    ∃ substituted assigned : Outcome,
      setting.Yields (block.flatMap (Instruction.substitute name inner)) substituted ∧
      (setting.assign name value).Yields block assigned ∧
      substituted.result = assigned.result := by
  induction h with
  | @operand instruction hoperands =>
    rw [List.flatMap_singleton]
    by_cases hload : ∃ other, instruction = .load other
    · obtain ⟨other, rfl⟩ := hload
      by_cases hother : other = name
      · subst hother
        refine ⟨outcome, ⟨.ok value, [.query other]⟩, ?_, ?_, hvalue⟩
        · rw [Instruction.substitute, if_pos rfl]
          exact hinner
        · refine .answer ?_
          rw [Setting.contribution, Setting.resolve_assign_same hname]
      · refine ⟨setting.resolve other, setting.resolve other, ?_, ?_, rfl⟩
        · rw [Instruction.substitute, if_neg hother]
          exact .answer rfl
        · refine .answer ?_
          rw [Setting.contribution, Setting.resolve_assign_of_ne hother]
    · have hno : ∀ other, instruction ≠ .load other := fun other hother ↦ hload ⟨other, hother⟩
      obtain ⟨answer, hanswer⟩ := Setting.contribution_of_operands_eq_zero hoperands
      rw [substitute_of_ne_load hno]
      exact ⟨answer, answer, .answer hanswer,
        .answer ((Setting.contribution_assign hno).trans hanswer), rfl⟩
  | @unary block instruction hoperands hblock ih =>
    obtain ⟨substituted, assigned, hsubstituted, hassigned, hresult⟩ := ih
    have hno := ne_load_of_operands hoperands
    have hsame : (setting.assign name value).contribution instruction =
        setting.contribution instruction := Setting.contribution_assign hno
    rw [List.flatMap_append, List.flatMap_singleton, substitute_of_ne_load hno]
    rcases Setting.contribution_of_operands_eq_one hoperands with
      ⟨operation, hoperation⟩ | ⟨error, hrefused⟩
    · exact ⟨_, _, hsubstituted.unary hoperation, hassigned.unary (hsame.trans hoperation),
        Outcome.result_map_congr operation hresult⟩
    · exact ⟨_, _, .refused _ hrefused, .refused _ (hsame.trans hrefused), rfl⟩
  | @binary left right instruction hoperands hleft hright ihleft ihright =>
    obtain ⟨first, first', hfirst, hfirst', hleftResult⟩ := ihleft
    obtain ⟨second, second', hsecond, hsecond', hrightResult⟩ := ihright
    have hno := ne_load_of_operands hoperands
    have hsame : (setting.assign name value).contribution instruction =
        setting.contribution instruction := Setting.contribution_assign hno
    rw [List.flatMap_append, List.flatMap_append, List.flatMap_singleton,
      substitute_of_ne_load hno]
    rcases Setting.contribution_of_operands_eq_two hconsistent hoperands with
      ⟨operation, hoperation⟩ | ⟨error, hrefused⟩
    · exact ⟨_, _, .binary hoperation hfirst hsecond,
        .binary (hsame.trans hoperation) hfirst' hsecond',
        Outcome.result_combine_congr operation hleftResult hrightResult⟩
    · rw [← List.append_assoc, ← List.append_assoc]
      exact ⟨_, _, .refused _ hrefused, .refused _ (hsame.trans hrefused), rfl⟩

/-- A program with another one instead of a name has the result that it has if the name, which is no
constant, has the value of the other one. -/
theorem result_evaluate_substitute (hconsistent : setting.vocabulary.IsConsistent)
    (hname : setting.vocabulary.constant name = none)
    (hblock : Postfix setting.vocabulary block) (hinner : Postfix setting.vocabulary inner)
    (hvalue : (Program.evaluate ⟨inner⟩ setting).result = .ok value) :
    (Program.evaluate (.substitute ⟨block⟩ name ⟨inner⟩) setting).result =
      (Program.evaluate ⟨block⟩ (setting.assign name value)).result := by
  obtain ⟨substituted, assigned, hsubstituted, hassigned, hresult⟩ :=
    hblock.exists_yields_substitute hconsistent hname (hinner.yields_evaluate hconsistent) hvalue
  rw [Program.substitute, hsubstituted.evaluate_eq, hassigned.evaluate_eq]
  exact hresult

end Postfix

end BeamCalc
