import BeamCalc.Proofs.Script.Statement

/-!
# A script below another

From one line to the next, a script takes the bindings and the number of the line, and nothing else.
The number is not used but to be shown: where a text stands further down, its statements have
greater numbers (`statements_add`), and where statements have greater numbers, so do their entries
(`runStatements_map_add`). So a script below another is run as if it stood alone, from the bindings
that the other leaves, except that its lines are counted from there (`run_append_of_endsLine`).
-/

set_option autoImplicit false
set_option relaxedAutoImplicit false

namespace BeamCalc

/-- The entry of the same line so many lines further down. -/
def Entry.moved (distance : Nat) (entry : Entry) : Entry :=
  ⟨entry.line + distance, entry.outcome⟩

/-- Only the text of a failure shows where the line is. -/
theorem Entry.text_moved (distance : Nat) (entry : Entry) :
    (entry.moved distance).text =
      match entry.outcome with
      | .ok text => .ok text
      | .error failure => .error s!"line {entry.line + distance}: {failure.message}" := by
  rfl

namespace Script

/-- The run of the same lines so many lines further down. -/
def Run.moved (distance : Nat) (run : Run) : Run :=
  ⟨run.entries.map (Entry.moved distance), run.bindings, run.events⟩

theorem statement?_add (number distance : Nat) (line : List Char) :
    statement? (number + distance) line =
      (statement? number line).map (Prod.map (· + distance) id) := by
  unfold statement?
  split <;> rfl

/-- Further down, a text makes the same statements with greater numbers. -/
theorem statements_add (first distance : Nat) (text : String) :
    statements (first + distance) text =
      (statements first text).map (Prod.map (· + distance) id) := by
  rw [statements_eq, statements_eq, Nat.add_comm, ← List.map_snd_add_zipIdx_eq_zipIdx,
    List.filterMap_map, List.map_filterMap]
  congr 1
  funext ⟨line, number⟩
  exact statement?_add number distance line

variable (calculator : Calculator) (task : Task) (bindings : Bindings)

/-- A step takes the number of its line for the entry only. -/
theorem step_add (line distance : Nat) (content : String) :
    step calculator task bindings (line + distance) content =
      (step calculator task bindings line content).moved distance := by
  unfold step
  dsimp only
  cases ((Statement.ofLine content).run calculator task true bindings).result <;> rfl

/-- Statements with greater numbers make the same entries with these numbers. -/
theorem runStatements_map_add (distance : Nat) (lines : List (Nat × String)) :
    runStatements calculator task bindings (lines.map (Prod.map (· + distance) id)) =
      (runStatements calculator task bindings lines).moved distance := by
  induction lines generalizing bindings with
  | nil => rfl
  | cons statement others ih =>
    obtain ⟨line, content⟩ := statement
    have hfirst : step calculator task bindings (line + distance) content =
        (step calculator task bindings line content).moved distance :=
      step_add calculator task bindings line distance content
    have hrest := ih (step calculator task bindings line content).bindings
    simp only [List.map_cons, Prod.map_apply, id_eq, runStatements, hfirst]
    simp only [Run.moved, hrest, List.map_append]

/-- A script below another. The upper script makes its entries whatever is below it, the lower one
those that it makes from the bindings after the upper one, where the numbers of failed lines count
the lines above; at the end are the bindings of the lower script. -/
theorem run_append_of_endsLine {above : String} (h : EndsLine above) (below : String) :
    let distance := above.toList.count '\n'
    let upper := run calculator task bindings above
    let lower := run calculator task upper.bindings below
    let whole := run calculator task bindings (above ++ below)
    whole.entries = upper.entries ++ lower.entries.map (Entry.moved distance) ∧
      whole.entries.map Entry.text = upper.entries.map Entry.text ++
        lower.entries.map (fun entry ↦
          match entry.outcome with
          | .ok text => .ok text
          | .error failure => .error s!"line {entry.line + distance}: {failure.message}") ∧
      whole.bindings = lower.bindings ∧ whole.events = upper.events ++ lower.events := by
  intro distance upper lower whole
  have hwhole : whole =
      upper.andThen fun after ↦ (run calculator task after below).moved distance := by
    change runStatements calculator task bindings (statements 1 (above ++ below)) = _
    rw [statements_append h, runStatements_append, lineBelow, statements_add]
    simp only [runStatements_map_add]
    rfl
  have hentries : whole.entries = upper.entries ++ lower.entries.map (Entry.moved distance) := by
    rw [hwhole]
    rfl
  refine ⟨hentries, ?_, ?_, ?_⟩
  · rw [hentries, List.map_append, List.map_map]
    exact congrArg _ (List.map_congr_left fun entry _ ↦ entry.text_moved distance)
  · rw [hwhole]
    rfl
  · rw [hwhole]
    rfl

/-- Every line above counts, so the first line below, which lacks an operand, fails as line 3. -/
theorem run_append_of_endsLine_comment :
    let above := "! half\r\nx := 1/2\r\n"
    let below := "x +\nx"
    let upper := run {} .value .empty above
    let lower := run {} .value upper.bindings below
    let whole := run {} .value .empty (above ++ below)
    whole.entries = upper.entries ++ lower.entries.map (Entry.moved 2) ∧
      (∃ failure, ⟨1, .error failure⟩ ∈ lower.entries ∧ ⟨3, .error failure⟩ ∈ whole.entries) ∧
      whole.bindings = lower.bindings := by
  intro above below upper lower whole
  have hends : EndsLine above := Or.inr ⟨"! half\r\nx := 1/2\r", by decide⟩
  obtain ⟨hentries, -, hbindings, -⟩ := run_append_of_endsLine {} .value .empty hends below
  have hcount : above.toList.count '\n' = 2 := by decide
  rw [hcount] at hentries
  obtain ⟨failure, hcompiled⟩ : ∃ failure, (Calculator.compile {} "x +").result =
      .error failure :=
    ⟨_, by with_unfolding_all rfl⟩
  have hstatements : statements 1 below = [(1, "x +"), (2, "x")] := by decide +kernel
  have hexpression : (Statement.ofLine "x +").expression = "x +" := by decide +kernel
  have hlower : ⟨1, .error failure⟩ ∈ lower.entries := by
    change _ ∈ (runStatements {} .value upper.bindings (statements 1 below)).entries
    rw [hstatements, runStatements]
    apply List.mem_append_left
    rw [entries_step_value, hexpression, Calculator.calculate, Report.result_bind, hcompiled]
    exact List.mem_cons_self
  refine ⟨hentries, ⟨failure, hlower, ?_⟩, hbindings⟩
  have hmoved := List.mem_map_of_mem (f := Entry.moved 2) hlower
  exact hentries ▸ List.mem_append_right upper.entries hmoved

end Script

end BeamCalc
