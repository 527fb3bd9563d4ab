import BeamCalc.Proofs.Calculator.Composition
import BeamCalc.Proofs.Script.Assignment

/-!
# Results that are entered again

The text of a result can be given back to the calculator. As the text of a number it is read
directly; as the text of an expression it is a numeral, or a minus and a numeral, whose program has
the result for its value (`Calculator.result_calculate_report`). So an assignment that was shown is
an assignment of the same value (`Number.report_readsBack`).
-/

set_option autoImplicit false
set_option relaxedAutoImplicit false

namespace BeamCalc

open Text Lexicon

variable {pattern : Nat} {text : List Char} {magnitude : Nat → List Char} {value : Float}

/-! ### The program of a number -/

/-- The token of the text of a pattern. -/
theorem Token.scans_of_isTextOf (h : Number.IsTextOf pattern text) (position : Nat) :
    Scans position text [⟨.number (Number.ofPattern false pattern), position⟩] := by
  have hmem := h.mem_numeral
  have hlongest : IsLongest lexeme text text :=
    ⟨.inl (.inl hmem), List.prefix_refl text, fun _ _ hfits ↦ hfits.length_le⟩
  have hlexeme := first?_eq_some_iff.mpr
    ⟨List.append_nil text, hlongest, .number hmem (h.read? false)⟩
  obtain ⟨first, others, rfl, -⟩ := Number.exists_head_of_mem_numeral hmem
  have hseparator : isSeparator first = false := isSeparator_eq_false_iff.mpr fun hseparator ↦
    not_isPrefix_of_separator hseparator _ hlongest.mem (List.prefix_refl _)
  exact .lexeme hseparator hlexeme .nil

namespace Program

open Grammar

/-- The magnitude of a number, as a number. -/
def magnitudeOf (value : Float) : Float :=
  Number.ofPattern false (Number.patternOf value)

/-- The instructions that make a number: its magnitude, negated if the number is negative. -/
def making (value : Float) : List Instruction :=
  if Number.isNegative value then [.number (magnitudeOf value), .negate]
  else [.number (magnitudeOf value)]

/-- The text of a finite number is compiled to the instructions that make it. -/
theorem writes_signedText
    (h : ∀ pattern < Number.Magnitude.infinity, Number.IsTextOf pattern (magnitude pattern))
    (hfinite : Number.patternOf value < Number.Magnitude.infinity) (vocabulary : Vocabulary) :
    Writes vocabulary 0 (Number.signedText magnitude value) (making value) := by
  have htext := h _ hfinite
  rw [Number.signedText, if_neg (Nat.not_lt.mpr hfinite.le), if_neg hfinite.ne, making]
  split
  · refine ⟨Phrase.ofOperand (.negated 0 (.bare (.number 1 (magnitudeOf value)))), ?_,
      by simp [Phrase.CallsFit], by simp [Phrase.depth], by simp [Phrase.emission]⟩
    rw [Token.ofText_eq_ok_iff, String.toList_ofList]
    exact (Token.scans_of_isTextOf htext 1).mark .minus
  · refine ⟨Phrase.ofOperand (.unsigned (.number 0 (magnitudeOf value))), ?_,
      by simp [Phrase.CallsFit], by simp [Phrase.depth], by simp [Phrase.emission]⟩
    rw [Token.ofText_eq_ok_iff, String.toList_ofList]
    exact Token.scans_of_isTextOf htext 0

/-- The instructions that make a number have it for their value. -/
theorem result_evaluate_making (hfinite : Number.patternOf value < Number.Magnitude.infinity)
    (setting : Setting) : (evaluate ⟨making value⟩ setting).result = .ok value := by
  have hmade := Number.ofPattern_patternOf value
  cases hsign : Number.isNegative value with
  | true =>
    have hvalue : (magnitudeOf value).neg = value := by
      rw [magnitudeOf, Number.neg_ofPattern hfinite.le]
      rwa [hsign] at hmade
    rw [making, if_pos hsign]
    change Except.ok (magnitudeOf value).neg = _
    rw [hvalue]
  | false =>
    rw [making, if_neg (by rw [hsign]; exact Bool.false_ne_true)]
    change Except.ok (magnitudeOf value) = _
    rw [hsign] at hmade
    rw [magnitudeOf, hmade]

end Program

/-- The text of a finite result has the result for its value. -/
theorem Calculator.result_calculate_report (hfinite : value.isFinite) (calculator : Calculator)
    (values : Table String Float) :
    (calculator.calculate values (Number.report value)).result = .ok value := by
  have hpattern := Number.isFinite_iff.mp hfinite
  have hwrites : Program.Writes calculator.vocabulary 0 (Number.report value) _ :=
    Program.writes_signedText (fun _ h ↦ Number.isTextOf_report h) hpattern _
  have hvalue := Program.result_evaluate_making hpattern (calculator.setting values)
  rw [calculate, Report.result_bind, compile_of_writes (hwrites.mono (Nat.zero_le _))]
  change (calculator.evaluate values ⟨Program.making value⟩).result = _
  rw [result_evaluate, hvalue]
  rfl

/-! ### Assignments that were shown -/

namespace Number

/-- A name, an equals sign and the text of a number bind the number to the name. -/
theorem readBinding_report {name : String} (hname : name.toList ∈ Lexicon.name) (value : Float) :
    readBinding (name ++ "=" ++ report value) = .ok (name, value) := by
  have hequals : '=' ∉ [] ++ name.toList ++ [] :=
    Statement.not_mem_signCharacters rfl rfl hname (by decide)
  rw [List.append_nil, List.nil_append] at hequals
  have htext : (name ++ "=" ++ report value).toList =
      name.toList ++ "=".toList ++ (report value).toList := by
    rw [String.toList_append, String.toList_append]
  have hcut : cut? "=".toList (name ++ "=" ++ report value).toList =
      some (name.toList, (report value).toList) := by
    rw [htext]
    exact cut?_eq_some_iff.mpr (.of_not_mem hequals [] _)
  rw [readBinding, hcut]
  dsimp only
  rw [trim_eq_self (not_isBlank_of_mem_name hname),
    trim_eq_self (not_isBlank_of_all (isWordChar_report value)),
    if_pos (Token.isName_of_mem_name hname), read?_report, String.ofList_toList]

end Number

namespace Statement

/-- An assignment that was shown assigns the value that it shows. -/
theorem ofLine_report {name : String} (hname : name.toList ∈ Lexicon.name) (value : Float) :
    ofLine (name ++ " = " ++ Number.report value) = ⟨some name, Number.report value⟩ := by
  have hcolon : ':' ∉ [] ++ name.toList ++ [' '] :=
    not_mem_signCharacters rfl rfl hname (by decide)
  have hequals : '=' ∉ [] ++ name.toList ++ [' '] :=
    not_mem_signCharacters rfl rfl hname (by decide)
  have hexpression : ¬[':', '='] <:+: [' '] ++ (Number.report value).toList := by
    intro hwithin
    rcases List.mem_cons.mp (hwithin.subset List.mem_cons_self) with hblank | hmem
    · cases hblank
    · exact not_mem_of_all (Number.isWordChar_report value) (by decide) hmem
  have hsign := standsAtSign_equals hcolon hequals hexpression
  have htext : (name ++ " = " ++ Number.report value).toList =
      [] ++ name.toList ++ [' '] ++ ['='] ++ ([' '] ++ (Number.report value).toList) := by
    simp
  have htrim := @trim_append [' '] (Number.report value).toList [] rfl rfl
    (not_isBlank_of_all (Number.isWordChar_report value))
  rw [← htext] at hsign
  rw [List.append_nil] at htrim
  rw [ofLine_of_standsAtSign rfl rfl hname hsign, htrim, String.ofList_toList, String.ofList_toList]

/-- The line of an assignment that was shown shows and assigns the same value again. -/
theorem result_run_report {name : String} (hname : name.toList ∈ Lexicon.name)
    (hfinite : value.isFinite) (calculator : Calculator) (echo : Bool) (bindings : Bindings) :
    ((ofLine (name ++ " = " ++ Number.report value)).run calculator .value echo bindings).result =
      .ok (name ++ " = " ++ Number.report value, bindings.insert name value) := by
  rw [ofLine_report hname, result_run_value, calculator.result_calculate_report hfinite]
  rfl

end Statement

namespace Number

/-- The text of a result is undone by every reader of values. It is read as the same number, bit for
bit, and so is the number of a binding. As an expression, the text of a finite result has the result
for its value, whatever the vocabulary, the policy and the variables are, and a line that shows its
assignment shows and assigns it again. -/
theorem report_readsBack (value : Float) :
    read? (report value).toList = some value ∧
    (∀ name : String, name.toList ∈ Lexicon.name →
      readBinding (name ++ "=" ++ report value) = .ok (name, value)) ∧
    (value.isFinite → ∀ (calculator : Calculator) (values : Table String Float),
      (calculator.calculate values (report value)).result = .ok value) ∧
    (value.isFinite → ∀ name : String, name.toList ∈ Lexicon.name →
      ∀ (calculator : Calculator) (echo : Bool) (bindings : Bindings),
      ((Statement.ofLine (name ++ " = " ++ report value)).run calculator .value echo
        bindings).result = .ok (name ++ " = " ++ report value, bindings.insert name value)) :=
  ⟨read?_report value, fun _ hname ↦ readBinding_report hname value,
    fun hfinite calculator ↦ calculator.result_calculate_report hfinite,
    fun hfinite _ hname calculator ↦ Statement.result_run_report hname hfinite calculator⟩

/-- Zero with a minus keeps its sign. -/
theorem report_readsBack_negativeZero :
    report (-0.0) = "-0.0" ∧ read? "-0.0".toList = some (-0.0) ∧
    readBinding "k1=-0.0" = .ok ("k1", -0.0) ∧
    (Calculator.calculate {} (fun _ ↦ none) "-0.0").result = .ok (-0.0) ∧
    ∀ bindings : Bindings, ((Statement.ofLine "k1 = -0.0").run {} .value true bindings).result =
      .ok ("k1 = -0.0", bindings.insert "k1" (-0.0)) := by
  have htext : report (-0.0) = "-0.0" := by decide +kernel
  have hname : "k1".toList ∈ Lexicon.name := mem_name_iff.mpr ⟨'k', ['1'], rfl, rfl, rfl⟩
  have hfinite : (-0.0 : Float).isFinite := by decide +kernel
  obtain ⟨hread, hbinding, hvalue, hrun⟩ := report_readsBack (-0.0)
  rw [htext] at hread hbinding hvalue hrun
  exact ⟨htext, hread, hbinding _ hname, hvalue hfinite {} _, hrun hfinite _ hname {} true⟩

end Number

end BeamCalc
