import BeamCalc.Proofs.Script.Lines

/-!
# What a statement does

A statement is either calculated or only compiled, and this has a result or fails
(`Statement.result_run_value`, `Statement.result_run_program`). So there is one way only in which a
step of a script changes the bindings: an assignment that is calculated and has a value
(`Script.bindings_step_of_assign`). Even this one leaves the values of all names but its target
(`Script.get?_bindings_step_value`), and every other step leaves the bindings as they are
(`Script.bindings_step_eq_self`).
-/

set_option autoImplicit false
set_option relaxedAutoImplicit false

namespace BeamCalc

/-- The result of a report that is followed by another. -/
theorem Report.result_bind {first second : Type} (report : Report first)
    (next : first → Report second) :
    (report >>= next).result = report.result >>= fun value ↦ (next value).result := by
  obtain ⟨_ | value, events⟩ := report <;> rfl

namespace Statement

/-- The text that shows the value of a statement. -/
def shown (statement : Statement) (echo : Bool) (value : Float) : String :=
  match statement.target with
  | some name => s!"{name} = {Number.report value}"
  | none =>
    if echo then s!"{statement.expression} = {Number.report value}" else Number.report value

/-- The text that shows the program of a statement. -/
def listed (statement : Statement) (program : Program) : String :=
  match statement.target with
  | some name => s!"{name} = {program.text}"
  | none => program.text

/-- The bindings after a statement with the value. -/
def bindingsAfter (statement : Statement) (value : Float) (bindings : Bindings) : Bindings :=
  match statement.target with
  | some name => bindings.insert name value
  | none => bindings

variable (statement : Statement) (calculator : Calculator) (echo : Bool) (bindings : Bindings)

/-- A statement that is calculated shows and binds the value of its expression. -/
theorem result_run_value :
    (statement.run calculator .value echo bindings).result =
      (calculator.calculate bindings.get? statement.expression).result.map
        fun value ↦ (statement.shown echo value, statement.bindingsAfter value bindings) := by
  unfold run Calculator.calculate
  rw [Report.result_bind, Report.result_bind]
  cases (calculator.compile statement.expression).result with
  | error failure => rfl
  | ok program =>
    change (calculator.evaluate bindings.get? program >>= _).result =
      Except.map _ (calculator.evaluate bindings.get? program).result
    rw [Report.result_bind]
    cases (calculator.evaluate bindings.get? program).result with
    | error failure => rfl
    | ok value =>
      obtain ⟨_ | name, expression⟩ := statement <;> rfl

/-- A statement that is only compiled shows its program and binds nothing. -/
theorem result_run_program :
    (statement.run calculator .program echo bindings).result =
      (calculator.compile statement.expression).result.map
        fun program ↦ (statement.listed program, bindings) := by
  unfold run
  rw [Report.result_bind]
  cases (calculator.compile statement.expression).result with
  | error failure => rfl
  | ok program =>
    obtain ⟨_ | name, expression⟩ := statement <;> rfl

variable {statement}

/-- A statement changes the value of no name but its target. -/
theorem get?_bindingsAfter {name : String} (h : statement.target ≠ some name) (value : Float)
    (bindings : Bindings) : (statement.bindingsAfter value bindings).get? name =
      bindings.get? name := by
  unfold bindingsAfter
  cases htarget : statement.target with
  | none => rfl
  | some target =>
    have hname : name ≠ target := by
      rintro rfl
      exact h htarget
    exact (Bindings.get?_insert bindings target name value).trans (if_neg hname)

/-- Statements with different targets bind their values in either order. -/
theorem bindingsAfter_comm {other : Statement}
    (h : ∀ name, statement.target = some name → other.target ≠ some name) (value value' : Float)
    (bindings : Bindings) :
    other.bindingsAfter value' (statement.bindingsAfter value bindings) =
      statement.bindingsAfter value (other.bindingsAfter value' bindings) := by
  unfold bindingsAfter
  cases htarget : statement.target with
  | none => rfl
  | some name =>
    cases hother : other.target with
    | none => rfl
    | some name' =>
      have hname : name ≠ name' := by
        rintro rfl
        exact h name htarget hother
      exact bindings.insert_comm hname value value'

end Statement

namespace Script

variable (calculator : Calculator) (task : Task) (bindings : Bindings) (line : Nat)
  (content : String)

/-- The entry of a step is the text of its statement, or the failure. -/
theorem entries_step :
    (step calculator task bindings line content).entries =
      [⟨line, ((Statement.ofLine content).run calculator task true bindings).result.map
        Prod.fst⟩] := by
  unfold step
  dsimp only
  cases ((Statement.ofLine content).run calculator task true bindings).result <;> rfl

/-- A step leaves the bindings of its statement, or those before it if the statement fails. -/
theorem bindings_step :
    (step calculator task bindings line content).bindings =
      match ((Statement.ofLine content).run calculator task true bindings).result with
      | .ok (_, after) => after
      | .error _ => bindings := by
  unfold step
  dsimp only
  cases ((Statement.ofLine content).run calculator task true bindings).result <;> rfl

/-- The entry of a step that is calculated. -/
theorem entries_step_value :
    (step calculator .value bindings line content).entries =
      [⟨line, (calculator.calculate bindings.get? (Statement.ofLine content).expression).result.map
        ((Statement.ofLine content).shown true)⟩] := by
  rw [entries_step, Statement.result_run_value]
  cases (calculator.calculate bindings.get? (Statement.ofLine content).expression).result <;> rfl

/-- The bindings after a step that is calculated. -/
theorem bindings_step_value :
    (step calculator .value bindings line content).bindings =
      match (calculator.calculate bindings.get? (Statement.ofLine content).expression).result with
      | .ok value => (Statement.ofLine content).bindingsAfter value bindings
      | .error _ => bindings := by
  rw [bindings_step, Statement.result_run_value]
  cases (calculator.calculate bindings.get? (Statement.ofLine content).expression).result <;> rfl

/-- A step that is calculated changes the value of no name but its target. -/
theorem get?_bindings_step_value {name : String}
    (h : (Statement.ofLine content).target ≠ some name) :
    (step calculator .value bindings line content).bindings.get? name = bindings.get? name := by
  rw [bindings_step_value]
  cases (calculator.calculate bindings.get? (Statement.ofLine content).expression).result with
  | error failure => rfl
  | ok value => exact Statement.get?_bindingsAfter h value bindings

/-- A step that only compiles binds nothing. -/
theorem bindings_step_program :
    (step calculator .program bindings line content).bindings = bindings := by
  rw [bindings_step, Statement.result_run_program]
  cases (calculator.compile (Statement.ofLine content).expression).result <;> rfl

variable {calculator task bindings line content}

/-- An assignment with a value binds it. -/
theorem bindings_step_of_assign {name : String} {value : Float}
    (htarget : (Statement.ofLine content).target = some name)
    (hvalue : (calculator.calculate bindings.get? (Statement.ofLine content).expression).result =
      .ok value) :
    (step calculator .value bindings line content).bindings = bindings.insert name value := by
  rw [bindings_step_value, hvalue]
  simp only [Statement.bindingsAfter, htarget]

/-- A step that only compiles, that assigns nothing or that fails leaves the bindings as they
are. -/
theorem bindings_step_eq_self
    (h : task = .program ∨ (Statement.ofLine content).target = none ∨
      ∃ failure, ⟨line, .error failure⟩ ∈ (step calculator task bindings line content).entries) :
    (step calculator task bindings line content).bindings = bindings := by
  rcases h with rfl | htarget | ⟨failure, hfailure⟩
  · exact bindings_step_program calculator bindings line content
  · cases task with
    | program => exact bindings_step_program calculator bindings line content
    | value =>
      rw [bindings_step_value]
      simp only [Statement.bindingsAfter, htarget]
      split <;> rfl
  · rw [entries_step, List.mem_singleton] at hfailure
    rw [bindings_step]
    cases hresult : ((Statement.ofLine content).run calculator task true bindings).result with
    | error failure => rfl
    | ok result =>
      rw [hresult] at hfailure
      cases hfailure

end Script

end BeamCalc
