import BeamCalc.Bindings
import BeamCalc.Calculator
import BeamCalc.Proofs.Evaluation.Agreement

/-!
# What a calculator reads of the variables

The names of a program that are no constants are all that a calculator reads of the variables
(`Calculator.evaluate_congr`). So wherever the values come from, from a list of pairs, a map or a
function, two sources that agree on these names lead to the same value or failure, after the same
queries and with the same notices (`Program.evaluate_of_agree_on_names`). A text is calculated with
what its program reads (`Calculator.calculate_congr`).
-/

set_option autoImplicit false
set_option relaxedAutoImplicit false

namespace BeamCalc

/-- Reports go on alike that do so with the result there is. -/
theorem Report.bind_congr {first second : Type} {report : Report first}
    {next next' : first → Report second}
    (h : ∀ result, report.result = .ok result → next' result = next result) :
    report >>= next' = report >>= next := by
  obtain ⟨_ | result, events⟩ := report
  · rfl
  · change (⟨(next' result).result, events ++ (next' result).events⟩ : Report second) =
      ⟨(next result).result, events ++ (next result).events⟩
    rw [h result rfl]

namespace Calculator

variable {calculator : Calculator} {values values' : Table String Float}

/-- A calculator evaluates programs alike to which it gives one outcome. -/
theorem evaluate_eq_of_outcome {calculator' : Calculator} {program : Program}
    (h : program.evaluate { calculator' with values := values' } =
      program.evaluate { calculator with values }) :
    calculator'.evaluate values' program = calculator.evaluate values program := by
  unfold evaluate
  rw [h]

/-- A calculator reads of the variables those that a program names and that are no constants. -/
theorem evaluate_congr {program : Program}
    (h : ∀ name ∈ program.names, calculator.vocabulary.constant name = none →
      values' name = values name) :
    calculator.evaluate values' program = calculator.evaluate values program :=
  evaluate_eq_of_outcome (program.evaluate_congr rfl rfl h)

/-- What a text is calculated to depends on the variables that its program reads. -/
theorem calculate_congr {text : String}
    (h : ∀ program, (calculator.compile text).result = .ok program → ∀ name ∈ program.names,
      calculator.vocabulary.constant name = none → values' name = values name) :
    calculator.calculate values' text = calculator.calculate values text :=
  Report.bind_congr fun program hprogram ↦ evaluate_congr (h program hprogram)

end Calculator

namespace Program

/-- Variables that a program does not name, and those with the name of a constant, do not interfere
with its evaluation: any two tables that agree on the other names of the program give it the same
outcome, with all that is asked for and noticed on the way, and a calculator makes the same report
of it. -/
theorem evaluate_of_agree_on_names (program : Program) (vocabulary : Vocabulary) (policy : Policy)
    {values values' : Table String Float}
    (h : ∀ name ∈ program.names, vocabulary.constant name = none → values' name = values name) :
    program.evaluate ⟨vocabulary, policy, values'⟩ = program.evaluate ⟨vocabulary, policy, values⟩ ∧
      Calculator.evaluate ⟨vocabulary, policy⟩ values' program =
        Calculator.evaluate ⟨vocabulary, policy⟩ values program :=
  ⟨program.evaluate_congr rfl rfl h, Calculator.evaluate_congr h⟩

/-- Of a list the first value of a name counts, of a map the last. The map has another variable,
the list a value for a constant, and neither has the value of `z`. -/
theorem evaluate_of_agree_on_names_sources :
    let program : Program := ⟨[.load "x", .load "pi", .operator '*', .load "z", .operator '+']⟩
    let pairs := Table.ofList [("x", 2), ("pi", 3), ("x", 7)]
    let map := (Bindings.ofList [("x", 7), ("y", 5), ("x", 2)]).get?
    (pairs "pi", map "pi") = (some 3, none) ∧ (pairs "y", map "y") = (none, some 5) ∧
      (program.evaluate ⟨.standard, {}, map⟩).notices = [⟨"z"⟩] ∧
      program.evaluate ⟨.standard, {}, pairs⟩ = program.evaluate ⟨.standard, {}, map⟩ ∧
      Calculator.evaluate {} pairs program = Calculator.evaluate {} map program := by
  intro program pairs map
  have hnames : program.names = ["x", "pi", "z"] := by decide
  have hagree : ∀ name ∈ program.names, Vocabulary.standard.constant name = none →
      pairs name = map name := by
    intro name hname hconstant
    rw [hnames] at hname
    simp only [List.mem_cons, List.not_mem_nil, or_false] at hname
    rcases hname with rfl | rfl | rfl
    · decide
    · revert hconstant
      decide
    · decide
  refine ⟨by decide, by decide, by decide, ?_⟩
  exact program.evaluate_of_agree_on_names .standard {} hagree

end Program

end BeamCalc
