import BeamCalc.Proofs.Calculator.Failure
import BeamCalc.Proofs.Script.Statement

/-!
# Lines that leave no trace

A script with a line and the one in which the line is empty differ in the entry of the line and in
the bindings from which the lines below it are run (`IsLine.exists_runs`). A line that is skipped,
that assigns nothing or that fails leaves the bindings as they are, and so does every line that is
only compiled. Without such a line all other entries are the same, with the same numbers, and so are
the bindings at the end (`run_without_line`).
-/

set_option autoImplicit false
set_option relaxedAutoImplicit false

namespace BeamCalc.Script

variable {calculator : Calculator} {task : Task} {bindings : Bindings}
  {above line below : String}

/-- The entries of statements have their numbers. -/
theorem exists_mem_of_mem_entries {statements : List (Nat × String)} {entry : Entry}
    (h : entry ∈ (runStatements calculator task bindings statements).entries) :
    ∃ statement ∈ statements, statement.1 = entry.line := by
  have hline := List.mem_map_of_mem (f := Entry.line) h
  rw [map_line_entries_runStatements] at hline
  exact List.mem_map.mp hline

/-- The entries of the lines above have smaller numbers. -/
theorem line_lt_of_mem_entries (hends : EndsLine above) {entry : Entry}
    (h : entry ∈ (run calculator task bindings above).entries) :
    entry.line < lineBelow 1 above := by
  obtain ⟨statement, hstatement, hline⟩ := exists_mem_of_mem_entries h
  exact hline ▸ fst_lt_of_mem_statements hends hstatement

/-- What a line does after the lines above it. -/
def runLine (calculator : Calculator) (task : Task) (bindings : Bindings) (above line : String) :
    Run :=
  runStatements calculator task (run calculator task bindings above).bindings
    (statement? (lineBelow 1 above) line.toList).toList

/-- The entries of a line have its number. -/
theorem line_of_mem_entries_runLine {entry : Entry}
    (h : entry ∈ (runLine calculator task bindings above line).entries) :
    entry.line = lineBelow 1 above := by
  obtain ⟨statement, hstatement, hnumber⟩ := exists_mem_of_mem_entries h
  rw [← hnumber, fst_of_mem_statement? (Option.mem_toList.mp hstatement)]

/-- A line with a statement is a step. -/
theorem runLine_eq_step (h : isStatement (content line.toList)) (calculator : Calculator)
    (task : Task) (bindings : Bindings) (above : String) :
    let made := step calculator task (run calculator task bindings above).bindings
      (lineBelow 1 above) (String.ofList (content line.toList))
    (runLine calculator task bindings above line).entries = made.entries ∧
      (runLine calculator task bindings above line).bindings = made.bindings := by
  intro made
  unfold runLine
  rw [statement?, if_pos h]
  exact ⟨List.append_nil _, rfl⟩

/-- Another line does nothing. -/
theorem runLine_of_not_isStatement (h : ¬isStatement (content line.toList)) :
    runLine calculator task bindings above line =
      ⟨[], (run calculator task bindings above).bindings, []⟩ := by
  unfold runLine
  rw [statement?, if_neg h, Option.toList_none, runStatements]

/-- A run of a text is one of the lines above a line, of the line and of the lines below, and the
statements below are the same whatever the line is. -/
theorem IsLine.exists_run (calculator : Calculator) (task : Task) (bindings : Bindings)
    (h : IsLine above line below) :
    ∃ others, (∀ statement ∈ others, lineBelow 1 above < statement.1) ∧
      ∀ line', '\n' ∉ line'.toList → run calculator task bindings (above ++ line' ++ below) =
        ((run calculator task bindings above).andThen fun _ ↦
          runLine calculator task bindings above line').andThen fun after ↦
            runStatements calculator task after others := by
  obtain ⟨others, hnumbers, hothers⟩ := h.exists_statements 1
  refine ⟨others, hnumbers, fun line' hline' ↦ ?_⟩
  rw [run, hothers line' hline', runStatements_append, runStatements_append]
  simp only [Run.andThen, runLine, run]

/-- With and without a line, the lines above make the same entries and those below are run, from the
bindings after the line and from the bindings before it. -/
theorem IsLine.exists_runs (calculator : Calculator) (task : Task) (bindings : Bindings)
    (h : IsLine above line below) :
    ∃ others,
      (run calculator task bindings (above ++ line ++ below)).entries.filter
          (fun entry ↦ entry.line ≠ lineBelow 1 above) =
        (run calculator task bindings above).entries ++
          (runStatements calculator task
            (runLine calculator task bindings above line).bindings others).entries ∧
      (run calculator task bindings (above ++ line ++ below)).bindings =
        (runStatements calculator task
          (runLine calculator task bindings above line).bindings others).bindings ∧
      (run calculator task bindings (above ++ below)).entries =
        (run calculator task bindings above).entries ++
          (runStatements calculator task
            (run calculator task bindings above).bindings others).entries ∧
      (run calculator task bindings (above ++ below)).bindings =
        (runStatements calculator task
          (run calculator task bindings above).bindings others).bindings := by
  obtain ⟨others, hnumbers, hothers⟩ := h.exists_run calculator task bindings
  have hwithout := hothers "" List.not_mem_nil
  rw [String.append_empty, runLine_of_not_isStatement (by decide)] at hwithout
  refine ⟨others, ?_, ?_, ?_, ?_⟩
  · have hbelow : ∀ entry ∈ (runStatements calculator task
        (runLine calculator task bindings above line).bindings others).entries,
        lineBelow 1 above < entry.line := by
      intro entry hentry
      obtain ⟨statement, hstatement, hnumber⟩ := exists_mem_of_mem_entries hentry
      exact hnumber ▸ hnumbers statement hstatement
    rw [hothers line h.whole, Run.entries_andThen, Run.entries_andThen, Run.bindings_andThen,
      List.filter_append, List.filter_append, List.filter_eq_self.mpr fun entry hentry ↦
        decide_eq_true (Nat.ne_of_lt (line_lt_of_mem_entries h.starts hentry)),
      List.filter_eq_nil_iff.mpr fun entry hentry ↦ by
        simp [line_of_mem_entries_runLine hentry],
      List.filter_eq_self.mpr fun entry hentry ↦
        decide_eq_true (Nat.ne_of_gt (hbelow entry hentry)),
      List.append_nil]
  · rw [hothers line h.whole, Run.bindings_andThen, Run.bindings_andThen]
  · rw [hwithout, Run.entries_andThen, Run.entries_andThen, Run.bindings_andThen, List.append_nil]
  · rw [hwithout, Run.bindings_andThen, Run.bindings_andThen]

/-- A line that makes no entry or leaves the bindings as they are. -/
inductive LeavesNoTrace (calculator : Calculator) (task : Task) (bindings : Bindings)
    (above line below : String) : Prop where
  /-- All lines are only compiled. -/
  | compiled (h : task = .program)
  /-- The line is empty or a comment. -/
  | skipped (h : isStatement (content line.toList) = false)
  /-- The line assigns nothing. -/
  | plain (h : (Statement.ofLine (String.ofList (content line.toList))).target = none)
  /-- The line fails. -/
  | failed (failure : Failure) (h : ⟨lineBelow 1 above, .error failure⟩ ∈
      (run calculator task bindings (above ++ line ++ below)).entries)

/-- An entry with the number of a line is that of the line. -/
theorem IsLine.mem_entries_runLine (h : IsLine above line below)
    {outcome : Except Failure String}
    (hentry : ⟨lineBelow 1 above, outcome⟩ ∈
      (run calculator task bindings (above ++ line ++ below)).entries) :
    ⟨lineBelow 1 above, outcome⟩ ∈ (runLine calculator task bindings above line).entries := by
  obtain ⟨others, hnumbers, hothers⟩ := h.exists_run calculator task bindings
  rw [hothers line h.whole] at hentry
  rcases List.mem_append.mp hentry with hentry | hbelow
  · rcases List.mem_append.mp hentry with habove | hline
    · exact absurd (line_lt_of_mem_entries h.starts habove) (Nat.lt_irrefl _)
    · exact hline
  · obtain ⟨statement, hstatement, hnumber⟩ := exists_mem_of_mem_entries hbelow
    exact absurd (hnumber ▸ hnumbers statement hstatement) (Nat.lt_irrefl _)

/-- A line that leaves no trace leaves the bindings as they are. -/
theorem IsLine.bindings_runLine (hline : IsLine above line below)
    (h : LeavesNoTrace calculator task bindings above line below) :
    (runLine calculator task bindings above line).bindings =
      (run calculator task bindings above).bindings := by
  by_cases hcounts : isStatement (content line.toList)
  · obtain ⟨hentries, hbindings⟩ := runLine_eq_step hcounts calculator task bindings above
    rw [hbindings]
    refine bindings_step_eq_self ?_
    cases h with
    | compiled htask => exact Or.inl htask
    | skipped hskipped =>
      rw [hcounts] at hskipped
      cases hskipped
    | plain htarget => exact Or.inr (Or.inl htarget)
    | failed failure hfailure =>
      exact Or.inr (Or.inr ⟨failure, hentries ▸ hline.mem_entries_runLine hfailure⟩)
  · rw [runLine_of_not_isStatement hcounts]

/-- Without a line that leaves no trace, but with its line end, a script makes all its other
entries, with their numbers and in their order, and leaves the same bindings. The numbers of entries
ascend, so no entry but that of the line has its number. -/
theorem run_without_line (hline : IsLine above line below)
    (h : LeavesNoTrace calculator task bindings above line below) :
    let whole := run calculator task bindings (above ++ line ++ below)
    let without := run calculator task bindings (above ++ below)
    without.entries = whole.entries.filter (fun entry ↦ entry.line ≠ lineBelow 1 above) ∧
      without.bindings = whole.bindings ∧
      whole.entries.Pairwise fun entry later ↦ entry.line < later.line := by
  intro whole without
  obtain ⟨others, hwhole, hbindings, hwithout, hbindings'⟩ :=
    hline.exists_runs calculator task bindings
  have hsame := hline.bindings_runLine h
  refine ⟨?_, ?_, pairwise_line_entries calculator task bindings _⟩
  · rw [hsame] at hwhole
    exact hwithout.trans hwhole.symm
  · rw [hsame] at hbindings
    exact hbindings'.trans hbindings.symm

/-- A name without a value makes the second line fail, so that nothing is assigned. -/
theorem run_without_line_failed :
    let calculator : Calculator := { policy := { strict := true } }
    let whole := run calculator .value .empty "! rates\nrate := base\n2*3\n"
    let without := run calculator .value .empty "! rates\n\n2*3\n"
    without.entries = whole.entries.filter (fun entry ↦ entry.line ≠ 2) ∧
      without.bindings = whole.bindings := by
  intro calculator whole without
  have hline : IsLine "! rates\n" "rate := base" "\n2*3\n" :=
    ⟨Or.inr ⟨"! rates", by decide⟩, by decide, Or.inr (Or.inl ⟨"2*3\n", by decide⟩)⟩
  have hstatements : statements 1 ("! rates\n" ++ "rate := base" ++ "\n2*3\n") =
      [(2, "rate := base"), (3, "2*3")] := by
    decide +kernel
  have hexpression : (Statement.ofLine "rate := base").expression = "base" := by
    decide +kernel
  have hcompiled : (calculator.compile "base").result = .ok ⟨[.load "base"]⟩ := by
    rw [Calculator.compile_eq_ok_iff]
    decide +kernel
  have hfailure : (calculator.calculate Bindings.empty.get? "base").result =
      .error (.evaluation (.undefinedVariable "base")) := by
    rw [Calculator.calculate, Report.result_bind, hcompiled]
    rfl
  have hfailed : ⟨2, .error (.evaluation (.undefinedVariable "base"))⟩ ∈
      (run calculator .value .empty ("! rates\n" ++ "rate := base" ++ "\n2*3\n")).entries := by
    rw [run, hstatements, runStatements]
    apply List.mem_append_left
    rw [entries_step_value, hexpression, hfailure]
    exact List.mem_cons_self
  obtain ⟨hentries, hbindings, -⟩ := run_without_line hline (.failed _ hfailed)
  exact ⟨hentries, hbindings⟩

end BeamCalc.Script
