import BeamCalc.Proofs.Calculator.Agreement
import BeamCalc.Proofs.Script.Omission

/-!
# What the names in a script read

Statement after statement, a script that is calculated holds for every name the value of the last
assignment to it that succeeded, or else the value from before the script (`Holds`). One statement
carries this on (`Holds.succ`, `Assigns.holds`), so it is true after any number of statements
(`holds_reached`). The values of a statement come from the statements above it, so an assignment
that reads its own target reads the old value.

A constant comes before a variable of the same name. An assignment to the name of a constant
therefore changes the bindings and no entry (`runStatements_agree`).
-/

set_option autoImplicit false
set_option relaxedAutoImplicit false

namespace BeamCalc

namespace Script

section

variable (calculator : Calculator) (bindings : Bindings) (lines : List (Nat × String))

/-- The bindings that the first `count` statements leave. -/
def reached (count : Nat) : Bindings :=
  (runStatements calculator .value bindings (lines.take count)).bindings

/-- The statement at the index is an assignment to the name that succeeds with the value. -/
def Assigns (index : Nat) (name : String) (value : Float) : Prop :=
  ∃ number written, lines[index]? = some (number, written) ∧
    (Statement.ofLine written).target = some name ∧
    (calculator.calculate (reached calculator bindings lines index).get?
      (Statement.ofLine written).expression).result = .ok value

/-- What the first `count` statements leave for a name. -/
inductive Holds (count : Nat) (name : String) : Option Float → Prop where
  /-- The value of the last assignment to the name that succeeds. -/
  | assigned {index : Nat} {value : Float} (hindex : index < count)
    (h : Assigns calculator bindings lines index name value)
    (hlast : ∀ later, index < later → later < count → ∀ other,
      ¬Assigns calculator bindings lines later name other) :
    Holds count name (some value)
  /-- No assignment to the name succeeds, and it is as it was. -/
  | initial (h : ∀ index < count, ∀ value, ¬Assigns calculator bindings lines index name value) :
    Holds count name (bindings.get? name)

/-- What a name reads after the first `count` statements. -/
inductive Reads (count : Nat) (name : String) : Outcome → Prop where
  /-- The constant of the vocabulary. -/
  | constant {value : Float} (h : calculator.vocabulary.constant name = some value) :
    Reads count name ⟨.ok value, []⟩
  /-- The value of the variable, if the name is no constant. -/
  | held {value : Float} (hconstant : calculator.vocabulary.constant name = none)
    (h : Holds calculator bindings lines count name (some value)) :
    Reads count name ⟨.ok value, [.query name]⟩
  /-- What the policy says, if there is neither. -/
  | unresolved (hconstant : calculator.vocabulary.constant name = none)
    (h : Holds calculator bindings lines count name none) :
    Reads count name (calculator.policy.unresolved name)

end

variable {calculator : Calculator} {bindings : Bindings} {lines : List (Nat × String)}
  {index count number : Nat} {written name : String} {value : Float}

/-! ### One statement -/

/-- The bindings after one more statement. -/
theorem reached_succ (h : lines[index]? = some (number, written)) :
    reached calculator bindings lines (index + 1) =
      (step calculator .value (reached calculator bindings lines index) number
        written).bindings := by
  unfold reached
  rw [List.take_add_one, h, runStatements_append]
  rfl

/-- A statement leaves the values of all names that it does not assign. -/
theorem get?_reached_succ (h : lines[index]? = some (number, written))
    (hno : ∀ value, ¬Assigns calculator bindings lines index name value) :
    (reached calculator bindings lines (index + 1)).get? name =
      (reached calculator bindings lines index).get? name := by
  rw [reached_succ h, bindings_step_value]
  cases hresult : (calculator.calculate (reached calculator bindings lines index).get?
      (Statement.ofLine written).expression).result with
  | error failure => rfl
  | ok value =>
    refine Statement.get?_bindingsAfter (fun htarget ↦ ?_) value _
    exact hno value ⟨number, written, h, htarget, hresult⟩

/-- An assignment that succeeds binds its value. -/
theorem Assigns.get?_eq (h : Assigns calculator bindings lines index name value) :
    (reached calculator bindings lines (index + 1)).get? name = some value := by
  obtain ⟨number, written, hline, htarget, hvalue⟩ := h
  rw [reached_succ hline, bindings_step_of_assign htarget hvalue, Bindings.get?_insert, if_pos rfl]

theorem Assigns.holds (h : Assigns calculator bindings lines index name value) :
    Holds calculator bindings lines (index + 1) name (some value) := by
  refine .assigned (Nat.lt_succ_self index) h fun later hafter hbefore ↦ ?_
  exact absurd (Nat.le_of_lt_succ hbefore) (Nat.not_le_of_lt hafter)

/-- What holds for a name goes on to hold after a statement that does not assign it. -/
theorem Holds.succ {held : Option Float} (h : Holds calculator bindings lines count name held)
    (hno : ∀ value, ¬Assigns calculator bindings lines count name value) :
    Holds calculator bindings lines (count + 1) name held := by
  cases h with
  | @assigned index value hindex hassigns hlast =>
    refine .assigned (Nat.lt_succ_of_lt hindex) hassigns fun later hafter hbefore ↦ ?_
    rcases Nat.lt_succ_iff_lt_or_eq.mp hbefore with hbefore | rfl
    · exact hlast later hafter hbefore
    · exact hno
  | initial hnone =>
    refine .initial fun index hindex ↦ ?_
    rcases Nat.lt_succ_iff_lt_or_eq.mp hindex with hindex | rfl
    · exact hnone index hindex
    · exact hno

/-! ### Any number of statements -/

/-- The bindings that statements leave are what holds after them. -/
theorem holds_reached (calculator : Calculator) (bindings : Bindings) (name : String)
    (hcount : count ≤ lines.length) :
    Holds calculator bindings lines count name
      ((reached calculator bindings lines count).get? name) := by
  induction count with
  | zero => exact .initial fun index hindex ↦ absurd hindex (Nat.not_lt_zero index)
  | succ index ih =>
    obtain ⟨⟨number, written⟩, hline⟩ : ∃ statement, lines[index]? = some statement :=
      ⟨_, List.getElem?_eq_getElem hcount⟩
    by_cases hassigns : ∃ value, Assigns calculator bindings lines index name value
    · obtain ⟨value, hvalue⟩ := hassigns
      rw [hvalue.get?_eq]
      exact hvalue.holds
    · have hno := not_exists.mp hassigns
      rw [get?_reached_succ hline hno]
      exact (ih (Nat.le_of_succ_le hcount)).succ hno

/-- What a name reads in a statement is what it reads after the statements above. -/
theorem exists_reads (calculator : Calculator) (bindings : Bindings) (name : String)
    (hcount : count ≤ lines.length) :
    ∃ outcome, (calculator.setting (reached calculator bindings lines count).get?).contribution
        (.load name) = .answer outcome ∧ Reads calculator bindings lines count name outcome := by
  have hholds := holds_reached calculator bindings name hcount
  refine ⟨_, rfl, ?_⟩
  cases hconstant : calculator.vocabulary.constant name with
  | some value =>
    rw [Setting.resolve_of_constant hconstant]
    exact .constant hconstant
  | none =>
    cases hvalue : (reached calculator bindings lines count).get? name with
    | some value =>
      rw [Setting.resolve_of_value hconstant hvalue]
      exact .held hconstant (hvalue ▸ hholds)
    | none =>
      rw [Setting.resolve_of_unresolved hconstant hvalue]
      exact .unresolved hconstant (hvalue ▸ hholds)

/-- The entry of a statement, calculated with the bindings that the statements above it leave. -/
theorem getElem?_entries (calculator : Calculator) (bindings : Bindings)
    (h : lines[index]? = some (number, written)) :
    (runStatements calculator .value bindings lines).entries[index]? =
      some ⟨number, (calculator.calculate (reached calculator bindings lines index).get?
        (Statement.ofLine written).expression).result.map
          ((Statement.ofLine written).shown true)⟩ := by
  obtain ⟨hindex, hline⟩ := List.getElem?_eq_some_iff.mp h
  have hsplit : lines = lines.take index ++ (number, written) :: lines.drop (index + 1) := by
    rw [← hline, List.getElem_cons_drop, List.take_append_drop]
  have hlength : (runStatements calculator .value bindings (lines.take index)).entries.length =
      index := by
    have hlines := congrArg List.length
      (map_line_entries_runStatements calculator .value bindings (lines.take index))
    rw [List.length_map, List.length_map, List.length_take] at hlines
    exact hlines.trans (Nat.min_eq_left (Nat.le_of_lt hindex))
  have hentries : (runStatements calculator .value bindings lines).entries =
      (runStatements calculator .value bindings (lines.take index)).entries ++
        ((step calculator .value (reached calculator bindings lines index) number
            written).entries ++
          (runStatements calculator .value (step calculator .value
            (reached calculator bindings lines index) number written).bindings
              (lines.drop (index + 1))).entries) := by
    conv_lhs => rw [hsplit, runStatements_append, Run.entries_andThen]
    rfl
  rw [hentries, List.getElem?_append_right (Nat.le_of_eq hlength), hlength, Nat.sub_self,
    entries_step_value]
  rfl

/-! ### Variables with the name of a constant -/

/-- Bindings that differ only in a name which is a constant make the same entries, and differ only
in this name afterwards. -/
theorem runStatements_agree {constant : Float}
    (hconstant : calculator.vocabulary.constant name = some constant) {first second : Bindings}
    (h : ∀ other ≠ name, first.get? other = second.get? other) (lines : List (Nat × String)) :
    (runStatements calculator .value first lines).entries =
        (runStatements calculator .value second lines).entries ∧
      ∀ other ≠ name, (runStatements calculator .value first lines).bindings.get? other =
        (runStatements calculator .value second lines).bindings.get? other := by
  induction lines generalizing first second with
  | nil => exact ⟨rfl, h⟩
  | cons statement others ih =>
    obtain ⟨number, written⟩ := statement
    have hsame : calculator.calculate first.get? (Statement.ofLine written).expression =
        calculator.calculate second.get? (Statement.ofLine written).expression := by
      refine Calculator.calculate_congr fun _ _ other _ hother ↦ h other ?_
      rintro rfl
      rw [hconstant] at hother
      cases hother
    have hentries : (step calculator .value first number written).entries =
        (step calculator .value second number written).entries := by
      rw [entries_step_value, entries_step_value, hsame]
    have hstep : ∀ other ≠ name,
        (step calculator .value first number written).bindings.get? other =
          (step calculator .value second number written).bindings.get? other := by
      intro other hother
      rw [bindings_step_value, bindings_step_value, hsame]
      cases (calculator.calculate second.get? (Statement.ofLine written).expression).result with
      | error failure => exact h other hother
      | ok value =>
        unfold Statement.bindingsAfter
        dsimp only
        cases (Statement.ofLine written).target with
        | none => exact h other hother
        | some target => simp only [Bindings.get?_insert, h other hother]
    obtain ⟨hothers, hrest⟩ := ih hstep
    exact ⟨by rw [runStatements, runStatements, hentries, hothers], hrest⟩

/-- A line that assigns a name changes no other. -/
theorem get?_runLine (calculator : Calculator) (bindings : Bindings) (above : String)
    {line : String}
    (htarget : (Statement.ofLine (String.ofList (content line.toList))).target = some name) :
    ∀ other ≠ name, (runLine calculator .value bindings above line).bindings.get? other =
      (run calculator .value bindings above).bindings.get? other := by
  intro other hother
  by_cases hcounts : isStatement (content line.toList)
  · obtain ⟨-, hbindings⟩ := runLine_eq_step hcounts calculator .value bindings above
    rw [hbindings]
    refine get?_bindings_step_value _ _ _ _ ?_
    rw [htarget]
    exact fun hname ↦ hother (Option.some.inj hname).symm
  · rw [runLine_of_not_isStatement hcounts]

/-- Without a line that assigns the name of a constant, but with its line end, a script makes all
its other entries and leaves the same values of all other names. -/
theorem run_without_assignment_of_constant (calculator : Calculator) (bindings : Bindings)
    {above line below : String} {constant : Float} (hline : IsLine above line below)
    (htarget : (Statement.ofLine (String.ofList (content line.toList))).target = some name)
    (hconstant : calculator.vocabulary.constant name = some constant) :
    (run calculator .value bindings (above ++ below)).entries =
        (run calculator .value bindings (above ++ line ++ below)).entries.filter
          (fun entry ↦ entry.line ≠ lineBelow 1 above) ∧
      ∀ other ≠ name,
        (run calculator .value bindings (above ++ below)).bindings.get? other =
          (run calculator .value bindings (above ++ line ++ below)).bindings.get? other := by
  obtain ⟨others, hwhole, hbindings, hwithout, hbindings'⟩ :=
    hline.exists_runs calculator .value bindings
  obtain ⟨hentries, hvalues⟩ := runStatements_agree hconstant
    (get?_runLine calculator bindings above htarget) others
  rw [hwhole, hwithout, hbindings, hbindings', hentries]
  exact ⟨rfl, fun other hother ↦ (hvalues other hother).symm⟩

/-! ### Scripts -/

/-- What a script that is calculated does with names. Each statement makes one entry, from its
expression and the bindings that the statements above it leave; there a name reads the constant, the
value of the last assignment above that succeeded, the value from before the script, or what the
policy says, in this order. At the end, a name has the value of the last assignment that succeeded
or the one from before the script. A line that assigns the name of a constant makes no difference to
other entries and to the values of other names. -/
theorem run_dataFlow (calculator : Calculator) (bindings : Bindings) (text : String) :
    let lines := statements 1 text
    let whole := run calculator .value bindings text
    (whole.entries.length = lines.length ∧
      ∀ index number written, lines[index]? = some (number, written) →
        let statement := Statement.ofLine written
        let values := (reached calculator bindings lines index).get?
        whole.entries[index]? = some
          ⟨number, (calculator.calculate values statement.expression).result.map
            (statement.shown true)⟩ ∧
        ∀ name, ∃ outcome, (calculator.setting values).contribution (.load name) =
          .answer outcome ∧ Reads calculator bindings lines index name outcome) ∧
    (∀ name, Holds calculator bindings lines lines.length name (whole.bindings.get? name)) ∧
    ∀ above line below name constant, IsLine above line below → text = above ++ line ++ below →
      (Statement.ofLine (String.ofList (content line.toList))).target = some name →
      calculator.vocabulary.constant name = some constant →
        let without := run calculator .value bindings (above ++ below)
        without.entries = whole.entries.filter (fun entry ↦ entry.line ≠ lineBelow 1 above) ∧
          ∀ other ≠ name, without.bindings.get? other = whole.bindings.get? other := by
  intro lines whole
  refine ⟨⟨?_, fun index number written hwritten ↦ ?_⟩, fun name ↦ ?_, ?_⟩
  · have hlines := congrArg List.length
      (map_line_entries_runStatements calculator .value bindings lines)
    rw [List.length_map, List.length_map] at hlines
    exact hlines
  · obtain ⟨hindex, -⟩ := List.getElem?_eq_some_iff.mp hwritten
    exact ⟨getElem?_entries calculator bindings hwritten,
      fun name ↦ exists_reads calculator bindings name (Nat.le_of_lt hindex)⟩
  · have hholds := holds_reached calculator bindings name (Nat.le_refl lines.length)
    rw [reached, List.take_length] at hholds
    exact hholds
  · rintro above line below name constant hline rfl htarget hconstant
    exact run_without_assignment_of_constant calculator bindings hline htarget hconstant

end Script

end BeamCalc
