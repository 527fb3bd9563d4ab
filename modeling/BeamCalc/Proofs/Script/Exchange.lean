import BeamCalc.Proofs.Calculator.Agreement
import BeamCalc.Proofs.Script.Statement

/-!
# Exchange of independent lines

A statement that is calculated reads the variables that its expression names and that are no
constants, and writes its target. Two statements are independent if neither writes what the other
reads or writes (`Statement.IsIndependent`). Then each is calculated alike before and after the
other (`calculate_step_of_isIndependent`), and both in either order leave the same bindings
(`bindings_step_comm`), whether they succeed or fail. So two lines of a script, one right below the
other, may be exchanged: their entries change places, and nothing else changes (`run_exchange`).
-/

set_option autoImplicit false
set_option relaxedAutoImplicit false

namespace BeamCalc

namespace Statement

/-- The program of the statement reads the name as a variable. -/
def ReadsVariable (statement : Statement) (calculator : Calculator) (name : String) : Prop :=
  ∃ program, (calculator.compile statement.expression).result = .ok program ∧
    name ∈ program.names ∧ calculator.vocabulary.constant name = none

/-- Neither statement assigns a name that the other assigns or reads as a variable. -/
structure IsIndependent (calculator : Calculator) (first second : Statement) : Prop where
  targets : ∀ name, first.target = some name → second.target ≠ some name
  second_reads : ∀ name, first.target = some name → ¬second.ReadsVariable calculator name
  first_reads : ∀ name, second.target = some name → ¬first.ReadsVariable calculator name

theorem IsIndependent.symm {calculator : Calculator} {first second : Statement}
    (h : IsIndependent calculator first second) : IsIndependent calculator second first where
  targets name hsecond hfirst := h.targets name hfirst hsecond
  second_reads := h.first_reads
  first_reads := h.second_reads

end Statement

namespace Script

open Statement

/-! ### Two steps -/

section Steps

/-- What an entry shows of what is written on a line, calculated with the bindings. -/
def outcome (calculator : Calculator) (bindings : Bindings) (written : String) :
    Except Failure String :=
  (calculator.calculate bindings.get? (ofLine written).expression).result.map
    ((ofLine written).shown true)

variable {calculator : Calculator} {first second : String}

/-- A statement is calculated alike after one that is independent of it. -/
theorem calculate_step_of_isIndependent
    (h : IsIndependent calculator (ofLine first) (ofLine second)) (bindings : Bindings)
    (number : Nat) :
    calculator.calculate (step calculator .value bindings number first).bindings.get?
        (ofLine second).expression =
      calculator.calculate bindings.get? (ofLine second).expression := by
  refine Calculator.calculate_congr fun program hprogram name hname hconstant ↦ ?_
  refine get?_bindings_step_value _ _ _ _ fun htarget ↦ ?_
  exact h.second_reads name htarget ⟨program, hprogram, hname, hconstant⟩

/-- Independent steps leave the same bindings in either order. -/
theorem bindings_step_comm (h : IsIndependent calculator (ofLine first) (ofLine second))
    (bindings : Bindings) (number number' : Nat) :
    (step calculator .value (step calculator .value bindings number first).bindings number'
        second).bindings =
      (step calculator .value (step calculator .value bindings number second).bindings number'
        first).bindings := by
  have hfirst := calculate_step_of_isIndependent h.symm bindings number
  have hsecond := calculate_step_of_isIndependent h bindings number
  rw [bindings_step_value _ _ number', bindings_step_value _ _ number', hfirst, hsecond,
    bindings_step_value, bindings_step_value]
  cases (calculator.calculate bindings.get? (ofLine first).expression).result with
  | error failure => rfl
  | ok value =>
    cases (calculator.calculate bindings.get? (ofLine second).expression).result with
    | error failure => rfl
    | ok value' => exact bindingsAfter_comm h.targets value value' bindings

/-- Independent statements, one after the other, make the entries that each makes from the bindings
before both. -/
theorem runStatements_of_isIndependent
    (h : IsIndependent calculator (ofLine first) (ofLine second)) (bindings : Bindings)
    (number number' : Nat) (others : List (Nat × String)) :
    let after := (step calculator .value (step calculator .value bindings number first).bindings
      number' second).bindings
    let whole := runStatements calculator .value bindings
      ((number, first) :: (number', second) :: others)
    let rest := runStatements calculator .value after others
    whole.entries = ⟨number, outcome calculator bindings first⟩ ::
        ⟨number', outcome calculator bindings second⟩ :: rest.entries ∧
      whole.bindings = rest.bindings := by
  intro after whole rest
  have hentries : whole.entries = (step calculator .value bindings number first).entries ++
      ((step calculator .value (step calculator .value bindings number first).bindings number'
        second).entries ++ rest.entries) :=
    rfl
  refine ⟨?_, rfl⟩
  rw [hentries, entries_step_value, entries_step_value, calculate_step_of_isIndependent h]
  rfl

/-- Independent statements exchanged. What follows is run from the same bindings. -/
theorem runStatements_exchange (h : IsIndependent calculator (ofLine first) (ofLine second))
    (bindings : Bindings) (number number' : Nat) (others : List (Nat × String)) :
    let whole := runStatements calculator .value bindings
      ((number, first) :: (number', second) :: others)
    let exchanged := runStatements calculator .value bindings
      ((number, second) :: (number', first) :: others)
    (∃ after,
      whole.entries = ⟨number, outcome calculator bindings first⟩ ::
        ⟨number', outcome calculator bindings second⟩ :: after ∧
      exchanged.entries = ⟨number, outcome calculator bindings second⟩ ::
        ⟨number', outcome calculator bindings first⟩ :: after) ∧
      exchanged.bindings = whole.bindings := by
  obtain ⟨hentries, hbindings⟩ := runStatements_of_isIndependent h bindings number number' others
  obtain ⟨hentries', hbindings'⟩ :=
    runStatements_of_isIndependent h.symm bindings number number' others
  rw [bindings_step_comm h.symm] at hentries' hbindings'
  exact ⟨⟨_, hentries, hentries'⟩, hbindings'.trans hbindings.symm⟩

end Steps

/-! ### Two lines -/

/-- The text `above ++ first ++ between ++ second ++ below` has `first` and `second` as lines, the
second one right below the first. -/
structure AreLines (above first between second below : String) : Prop where
  starts : EndsLine above
  whole_first : '\n' ∉ first.toList
  separates : IsLineEnd between
  whole_second : '\n' ∉ second.toList
  ends : BeginsWithEnd below

variable {above first between second below : String}

theorem AreLines.symm (h : AreLines above first between second below) :
    AreLines above second between first below :=
  { h with whole_first := h.whole_second, whole_second := h.whole_first }

/-- What counts of a line. -/
def written (line : String) : String :=
  String.ofList (content line.toList)

/-- The statements of a text with two lines that make statements. Those below do not depend on the
two lines. -/
theorem AreLines.exists_statements (h : AreLines above first between second below) :
    ∃ others, ∀ upper lower, AreLines above upper between lower below →
      isStatement (content upper.toList) → isStatement (content lower.toList) →
        statements 1 (above ++ upper ++ between ++ lower ++ below) =
          statements 1 above ++ (lineBelow 1 above, written upper) ::
            (lineBelow 1 above + 1, written lower) :: others := by
  obtain ⟨others, hothers⟩ := exists_statements_append h.ends
  refine ⟨statements (lineBelow 1 above + 1 + 1) others,
    fun upper lower hlines hupper hlower ↦ ?_⟩
  have hsplit : above ++ upper ++ between ++ lower ++ below =
      above ++ (upper ++ between ++ (lower ++ below)) := by
    simp only [String.append_assoc]
  rw [hsplit, statements_append h.starts,
    statements_append_lineEnd_append hlines.whole_first h.separates,
    hothers _ _ hlines.whole_second, statement?, if_pos hupper, statement?, if_pos hlower]
  rfl

/-- A run of a text with two lines that make statements. -/
theorem AreLines.exists_run (calculator : Calculator) (task : Task) (bindings : Bindings)
    (h : AreLines above first between second below) :
    ∃ others, ∀ upper lower, AreLines above upper between lower below →
      isStatement (content upper.toList) → isStatement (content lower.toList) →
        run calculator task bindings (above ++ upper ++ between ++ lower ++ below) =
          (run calculator task bindings above).andThen fun after ↦
            runStatements calculator task after ((lineBelow 1 above, written upper) ::
              (lineBelow 1 above + 1, written lower) :: others) := by
  obtain ⟨others, hothers⟩ := h.exists_statements
  refine ⟨others, fun upper lower hlines hupper hlower ↦ ?_⟩
  rw [run, hothers upper lower hlines hupper hlower, runStatements_append]
  rfl

/-- Two lines, one right below the other, make independent statements. Exchanged, each makes the
entry that it made before, both times from the bindings of the lines above, so that only the numbers
of the two lines change places; all other entries and the bindings at the end are the same. -/
theorem run_exchange (calculator : Calculator) (bindings : Bindings)
    (hlines : AreLines above first between second below)
    (hfirst : isStatement (content first.toList)) (hsecond : isStatement (content second.toList))
    (h : IsIndependent calculator (ofLine (written first)) (ofLine (written second))) :
    let upper := run calculator .value bindings above
    let number := lineBelow 1 above
    let made := outcome calculator upper.bindings (written first)
    let made' := outcome calculator upper.bindings (written second)
    let whole := run calculator .value bindings (above ++ first ++ between ++ second ++ below)
    let exchanged := run calculator .value bindings (above ++ second ++ between ++ first ++ below)
    (∃ after,
      whole.entries = upper.entries ++ ⟨number, made⟩ :: ⟨number + 1, made'⟩ :: after ∧
      exchanged.entries = upper.entries ++ ⟨number, made'⟩ :: ⟨number + 1, made⟩ :: after) ∧
      exchanged.bindings = whole.bindings := by
  intro upper number made made' whole exchanged
  obtain ⟨others, hothers⟩ := hlines.exists_run calculator .value bindings
  have hwhole : whole = upper.andThen fun after ↦ runStatements calculator .value after
      ((number, written first) :: (number + 1, written second) :: others) :=
    hothers first second hlines hfirst hsecond
  have hexchanged : exchanged = upper.andThen fun after ↦ runStatements calculator .value after
      ((number, written second) :: (number + 1, written first) :: others) :=
    hothers second first hlines.symm hsecond hfirst
  obtain ⟨⟨after, hentries, hentries'⟩, hbindings⟩ :=
    runStatements_exchange h upper.bindings number (number + 1) others
  refine ⟨⟨after, ?_, ?_⟩, ?_⟩
  · rw [hwhole, Run.entries_andThen, hentries]
  · rw [hexchanged, Run.entries_andThen, hentries']
  · rw [hwhole, hexchanged, Run.bindings_andThen, Run.bindings_andThen, hbindings]

/-- An assignment to the name of a constant changes places with a line that reads the constant. -/
theorem run_exchange_constant :
    let upper := run {} .value .empty "x := 2\n"
    let made := outcome {} upper.bindings "pi := 3"
    let made' := outcome {} upper.bindings "y = 2*pi"
    let whole := run {} .value .empty
      ("x := 2\n" ++ "pi := 3 ! a constant" ++ "\r\n" ++ "y = 2*pi;" ++ "\nx")
    let exchanged := run {} .value .empty
      ("x := 2\n" ++ "y = 2*pi;" ++ "\r\n" ++ "pi := 3 ! a constant" ++ "\nx")
    (∃ after,
      whole.entries = upper.entries ++ ⟨2, made⟩ :: ⟨3, made'⟩ :: after ∧
      exchanged.entries = upper.entries ++ ⟨2, made'⟩ :: ⟨3, made⟩ :: after) ∧
      exchanged.bindings = whole.bindings := by
  intro upper made made' whole exchanged
  have hlines : AreLines "x := 2\n" "pi := 3 ! a constant" "\r\n" "y = 2*pi;" "\nx" :=
    { starts := Or.inr ⟨"x := 2", by decide⟩
      whole_first := by decide
      separates := Or.inr rfl
      whole_second := by decide
      ends := Or.inr (Or.inl ⟨"x", by decide⟩) }
  have hfirst : written "pi := 3 ! a constant" = "pi := 3" := by decide +kernel
  have hsecond : written "y = 2*pi;" = "y = 2*pi" := by decide +kernel
  have hassigns : ofLine "pi := 3" = ⟨some "pi", "3"⟩ := by decide +kernel
  have hreads : ofLine "y = 2*pi" = ⟨some "y", "2*pi"⟩ := by decide +kernel
  obtain ⟨value, hcompiled⟩ : ∃ value, (Calculator.compile {} "3").result =
      .ok ⟨[.number value]⟩ :=
    ⟨_, by with_unfolding_all rfl⟩
  have hindependent : IsIndependent {} (ofLine (written "pi := 3 ! a constant"))
      (ofLine (written "y = 2*pi;")) := by
    rw [hfirst, hsecond, hassigns, hreads]
    refine ⟨?_, ?_, ?_⟩
    · rintro name ⟨⟩
      decide
    · -- The second line reads `pi`, but as a constant.
      rintro name ⟨⟩ ⟨program, -, -, hconstant⟩
      revert hconstant
      decide
    · rintro name ⟨⟩ ⟨program, hprogram, hname, -⟩
      obtain rfl := Except.ok.inj (hcompiled.symm.trans hprogram)
      exact absurd hname List.not_mem_nil
  obtain ⟨⟨after, hwhole, hexchanged⟩, hbindings⟩ := run_exchange {} .empty hlines
    (by decide) (by decide) hindependent
  rw [hfirst, hsecond] at hwhole hexchanged
  exact ⟨⟨after, hwhole, hexchanged⟩, hbindings⟩

end Script

end BeamCalc
