import BeamCalc.Proofs.Evaluation.Recursion

/-!
# The steps of a run

What one instruction does to a run: an operation waits with the others (`run_operation`), an answer
is handed to them (`run_answer`). Only at an answer something is done besides (`effectsOf`).

So runs in two settings of which one answers as the other does, up to a change of outcomes that
respects the order of what is done, have the same outcome up to that change
(`run_eq_of_contribution`). Both settings then hold the same operations at every step, also in
programs that are not well-formed.
-/

set_option autoImplicit false
set_option relaxedAutoImplicit false

namespace BeamCalc

/-- The notice that an effect is, unless it is a query. -/
def Effect.notice? : Effect → Option Notice
  | .notice given => some given
  | .query _ => none

/-- The notices that are given in a part of an evaluation, in order. -/
def Attempt.notices {result : Type} (attempt : Attempt result) : List Notice :=
  attempt.effects.filterMap Effect.notice?

namespace Outcome

theorem notices_eq (outcome : Outcome) :
    outcome.notices = outcome.effects.filterMap Effect.notice? :=
  rfl

/-- What goes on with an outcome goes on after all that is done before. -/
theorem into_after (effects : List Effect) (outcome : Outcome) (next : Float → Outcome) :
    (outcome.after effects).attempt.into next = (outcome.attempt.into next).after effects := by
  obtain ⟨_ | value, effects'⟩ := outcome
  · rfl
  · simp [attempt, Attempt.into, after]

/-- A change of outcomes that respects the order of what is done. -/
structure IsUniform (change : Outcome → Outcome) : Prop where
  quiet : ∀ result, change ⟨result, []⟩ = ⟨result, []⟩
  into : ∀ (outcome : Outcome) (next : Float → Outcome),
    change (outcome.attempt.into next) =
      (change outcome).attempt.into fun value ↦ change (next value)

end Outcome

namespace Setting

/-- A contribution of which the outcome, if it has one, is changed. -/
def Contribution.map (change : Outcome → Outcome) : Contribution → Contribution
  | .answer outcome => .answer (change outcome)
  | .operation pending => .operation pending

variable {setting setting' : Setting} {instruction : Instruction}

/-- An operation waits for its operands. -/
theorem run_operation {operation : Pending}
    (h : setting.contribution instruction = .operation operation) (pending : List Pending)
    (earlier : List Instruction) :
    setting.run pending (instruction :: earlier) = setting.run (operation :: pending) earlier := by
  rw [run, h]

/-- An answer is handed to the operations that wait, if it is a value. -/
theorem run_answer {outcome : Outcome}
    (h : setting.contribution instruction = .answer outcome) (pending : List Pending)
    (earlier : List Instruction) :
    setting.run pending (instruction :: earlier) =
      outcome.attempt.into fun value ↦ setting.proceed pending value earlier := by
  rw [run_eq_into, take_answer earlier h, Attempt.into_bind]
  exact Attempt.into_congr fun value _ ↦ rfl

/-- What is done at an instruction. Only names are looked up. -/
def effectsOf (setting : Setting) : Instruction → List Effect
  | .load name => (setting.resolve name).effects
  | .number _ | .negate | .operator _ | .function _ => []

theorem effectsOf_of_answer {outcome : Outcome}
    (h : setting.contribution instruction = .answer outcome) :
    setting.effectsOf instruction = outcome.effects := by
  cases instruction with
  | number value | load name =>
    cases h
    rfl
  | negate => cases h
  | operator symbol =>
    simp only [contribution] at h
    split at h <;> cases h
    rfl
  | function name =>
    simp only [contribution] at h
    split at h
    · cases h
    · split at h <;> cases h
      rfl

theorem effectsOf_of_operation {operation : Pending}
    (h : setting.contribution instruction = .operation operation) :
    setting.effectsOf instruction = [] := by
  cases instruction with
  | load name => cases h
  | number value | negate | operator symbol | function name => rfl

/-- Settings that answer alike, up to a uniform change of outcomes, run alike. -/
theorem run_eq_of_contribution {change : Outcome → Outcome} (hchange : Outcome.IsUniform change)
    (pending : List Pending) {backward : List Instruction}
    (h : ∀ instruction ∈ backward,
      setting'.contribution instruction = (setting.contribution instruction).map change) :
    setting'.run pending backward = change (setting.run pending backward) := by
  induction backward generalizing pending with
  | nil => exact (hchange.quiet _).symm
  | cons instruction earlier ih =>
    have hfirst := h instruction List.mem_cons_self
    have hearlier : ∀ pending,
        setting'.run pending earlier = change (setting.run pending earlier) := fun pending ↦
      ih pending fun other hother ↦ h other (List.mem_cons_of_mem _ hother)
    have hproceed : ∀ value, setting'.proceed pending value earlier =
        change (setting.proceed pending value earlier) := by
      intro value
      unfold proceed
      cases Pending.supply value pending with
      | inr pending => exact hearlier pending
      | inl value =>
        dsimp only
        split <;> exact (hchange.quiet _).symm
    cases hcontribution : setting.contribution instruction with
    | operation operation =>
      rw [hcontribution] at hfirst
      rw [run_operation hcontribution, run_operation hfirst, hearlier]
    | answer outcome =>
      rw [hcontribution] at hfirst
      rw [run_answer hcontribution, run_answer hfirst, hchange.into]
      exact Attempt.into_congr fun value _ ↦ hproceed value

end Setting

end BeamCalc
