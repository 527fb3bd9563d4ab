import BeamCalc.Proofs.Calculator.Composition
import BeamCalc.Proofs.Grammar.Replacement
import BeamCalc.Proofs.Script.Statement

/-!
# Substituting a text for a name

A name that has the value of a text may be replaced by the text. Wherever the program of another
text reads the name, the instructions of the text that is put in may stand, and the result is the
same: both programs are in postfix order, and this lets the instructions be put in anywhere. In the
text itself the bracketed text stands for the name (`Text.inlineName`), and its program is then the
one with the instructions put in (`Program.Writes.inlined`). So a statement that binds the name and
a text that is calculated after it have the result of one text (`Calculator.evaluate_substitute`).
-/

set_option autoImplicit false
set_option relaxedAutoImplicit false

namespace BeamCalc

open Grammar

/-- The text in which another one in brackets stands wherever the name does, except in calls. -/
def Text.inlineName (name inner text : String) : String :=
  String.ofList (Token.replaceName name ("(" ++ inner ++ ")").toList text.toList)

namespace Program

variable {vocabulary : Vocabulary} {outerText innerText : String}

/-- The phrase of a text in which another one in brackets stands for a name. -/
theorem exists_phrase_inlineName {outer inner : Phrase .sum}
    (houter : Token.ofText outerText = .ok outer.tokens)
    (hinner : Token.ofText innerText = .ok inner.tokens) (name : String) :
    ∃ phrase : Phrase .sum,
      Token.ofText (Text.inlineName name innerText outerText) = .ok phrase.tokens ∧
        outer.Replaced name inner phrase := by
  have hscans := Token.ofText_eq_ok_iff.mp houter
  rw [← List.append_nil outer.tokens] at hscans
  obtain ⟨tokens, htokens, hexchanges, -⟩ :=
    (Token.ofText_eq_ok_iff.mp hinner).exists_replaceName name hscans 0
  obtain ⟨phrase, after, rfl, hafter, hreplaced⟩ :=
    Phrase.exists_replaced name inner outer .nil hexchanges
  cases hafter
  refine ⟨phrase, Token.ofText_eq_ok_iff.mpr ?_, hreplaced⟩
  rw [List.append_nil] at htokens
  simpa [Text.inlineName, Mark.symbol] using htokens

/-- A text in which another one in brackets stands for a name is compiled to the instructions in
which those of the other one stand for it. It is deeper by the brackets and what they enclose. -/
theorem Writes.inlined {levels levels' : Nat} {outer inner : List Instruction}
    (houter : Writes vocabulary levels outerText outer)
    (hinner : Writes vocabulary levels' innerText inner) (name : String) :
    Writes vocabulary (levels + (levels' + 1)) (Text.inlineName name innerText outerText)
      (outer.flatMap (Instruction.substitute name inner)) := by
  obtain ⟨phrase, htokens, hfits, hdepth, rfl⟩ := houter
  obtain ⟨phrase', htokens', hfits', hdepth', rfl⟩ := hinner
  obtain ⟨whole, hwhole, hreplaced⟩ := exists_phrase_inlineName htokens htokens' name
  refine ⟨whole, hwhole, hreplaced.callsFit vocabulary hfits' hfits, ?_, hreplaced.emission_eq⟩
  have hle := hreplaced.depth_le
  omega

/-- The function of a call keeps its name. -/
example : Text.inlineName "ln" "x+1" "2*ln(ln)" = "2*ln((x+1))" := by decide +kernel

/-- A program of a text in which another one in brackets stands for a name is the one in which the
program of the other one stands for it. -/
theorem eq_substitute_of_ofText_inlineName {outer inner program : Program} {name : String}
    (houter : ofText vocabulary outerText = .ok outer)
    (hinner : ofText vocabulary innerText = .ok inner)
    (h : ofText vocabulary (Text.inlineName name innerText outerText) = .ok program) :
    program = outer.substitute name inner := by
  obtain ⟨phrase, htokens, -, -, hemission⟩ := ofText_eq_ok_iff.mp houter
  obtain ⟨phrase', htokens', -, -, hemission'⟩ := ofText_eq_ok_iff.mp hinner
  obtain ⟨found, hfound, -, -, hprogram⟩ := ofText_eq_ok_iff.mp h
  obtain ⟨whole, hwhole, hreplaced⟩ := exists_phrase_inlineName htokens htokens' name
  obtain rfl : found = whole := by
    rw [hwhole] at hfound
    exact Phrase.tokens_injective (Except.ok.inj hfound).symm
  have hinstructions := hreplaced.emission_eq
  rw [hemission, hemission', hprogram] at hinstructions
  cases program
  exact congrArg Program.mk hinstructions

end Program

namespace Calculator

variable {calculator : Calculator} {values : Table String Float} {outerText innerText name : String}
  {outer inner : Program} {value : Float}

/-- A program with another one instead of a name, which is no constant, has the result that it has
if the name has the value of the other one. -/
theorem result_evaluate_substitute (hbuilt : calculator.vocabulary.IsBuilt)
    (houter : (calculator.compile outerText).result = .ok outer)
    (hinner : (calculator.compile innerText).result = .ok inner)
    (hname : calculator.vocabulary.constant name = none)
    (hvalue : (calculator.evaluate values inner).result = .ok value) :
    (calculator.evaluate values (outer.substitute name inner)).result =
      (calculator.evaluate (values.set name (some value)) outer).result := by
  rw [compile_eq_ok_iff] at houter hinner
  rw [evaluate_eq_ok_iff] at hvalue
  rw [result_evaluate, result_evaluate]
  have hpostfix : Postfix (calculator.setting values).vocabulary outer.instructions :=
    Program.postfix_of_ofText houter
  have hresult := hpostfix.result_evaluate_substitute hbuilt.isConsistent hname
    (Program.postfix_of_ofText hinner) hvalue
  exact congrArg (Except.mapError Failure.evaluation) hresult

/-- An assignment of a text gives the name its value. -/
theorem result_run_assignment (bindings : Bindings) (echo : Bool)
    (hinner : (calculator.compile innerText).result = .ok inner)
    (hvalue : (calculator.evaluate bindings.get? inner).result = .ok value) :
    ((Statement.mk (some name) innerText).run calculator .value echo bindings).result.map Prod.snd =
        .ok (bindings.insert name value) ∧
      (bindings.insert name value).get? = Table.set bindings.get? name (some value) := by
  constructor
  · rw [Statement.result_run_value, calculate, Report.result_bind, hinner]
    change ((calculator.evaluate bindings.get? inner).result.map _).map _ = _
    rw [hvalue]
    rfl
  · funext wanted
    rw [Bindings.get?_insert]
    rfl

/-- What a text is for a name that has its value. Its program may stand for the name, which is no
constant, in the program of another text, and the result is the same. So it is if the text is put
into the other one in brackets, and this is compiled unless it is nested too deep. The value is also
that of the name after an assignment of the text. -/
theorem evaluate_substitute (hbuilt : calculator.vocabulary.IsBuilt)
    (houter : (calculator.compile outerText).result = .ok outer)
    (hinner : (calculator.compile innerText).result = .ok inner)
    (hname : calculator.vocabulary.constant name = none)
    (hvalue : (calculator.evaluate values inner).result = .ok value) :
    (calculator.evaluate values (outer.substitute name inner)).result =
        (calculator.evaluate (values.set name (some value)) outer).result ∧
    (∀ program,
      (calculator.compile (Text.inlineName name innerText outerText)).result = .ok program →
        (calculator.evaluate values program).result =
          (calculator.evaluate (values.set name (some value)) outer).result) ∧
    (∀ levels levels',
      Program.Writes calculator.vocabulary levels outerText outer.instructions →
      Program.Writes calculator.vocabulary levels' innerText inner.instructions →
      levels + (levels' + 1) ≤ nestingLimit →
        (calculator.compile (Text.inlineName name innerText outerText)).result =
          .ok (outer.substitute name inner)) ∧
    ∀ bindings echo, bindings.get? = values →
      ((Statement.mk (some name) innerText).run calculator .value echo bindings).result.map
          Prod.snd = .ok (bindings.insert name value) ∧
        (bindings.insert name value).get? = values.set name (some value) := by
  have hresult := result_evaluate_substitute hbuilt houter hinner hname hvalue
  refine ⟨hresult, fun program hprogram ↦ ?_, fun levels levels' hlevels hlevels' hlimit ↦ ?_, ?_⟩
  · have hsame := Program.eq_substitute_of_ofText_inlineName (compile_eq_ok_iff.mp houter)
      (compile_eq_ok_iff.mp hinner) (compile_eq_ok_iff.mp hprogram)
    rw [hsame]
    exact hresult
  · exact compile_of_writes ((hlevels.inlined hlevels' name).mono hlimit)
  · rintro bindings echo rfl
    exact result_run_assignment bindings echo hinner hvalue

/-- The text that is put in reads the name for which it stands, with the value from before. -/
theorem evaluate_substitute_self :
    let values : Table String Float := Table.set (fun _ ↦ none) "x" (some 2)
    Text.inlineName "x" "x+1" "-x" = "-(x+1)" ∧
      (calculate {} values "-(x+1)").result =
        (calculate {} (values.set "x" (some (Float.add 2 1))) "-x").result := by
  intro values
  have houter : (compile {} "-x").result = .ok ⟨[.load "x", .negate]⟩ := by
    rw [compile_eq_ok_iff]
    decide +kernel
  have hinner : (compile {} "x+1").result = .ok ⟨[.load "x", .number 1, .operator '+']⟩ := by
    rw [compile_eq_ok_iff]
    decide +kernel
  have hvalue : (evaluate {} values ⟨[.load "x", .number 1, .operator '+']⟩).result =
      .ok (Float.add 2 1) := by
    rfl
  have hname : Vocabulary.standard.constant "x" = none := by decide
  have hinline : Text.inlineName "x" "x+1" "-x" = "-(x+1)" := by
    decide +kernel
  have hprogram : (compile {} (Text.inlineName "x" "x+1" "-x")).result =
      .ok ⟨[.load "x", .number 1, .operator '+', .negate]⟩ := by
    rw [hinline, compile_eq_ok_iff]
    decide +kernel
  obtain ⟨-, hresult, -⟩ := evaluate_substitute ⟨[], rfl⟩ houter hinner hname hvalue
  refine ⟨hinline, ?_⟩
  rw [calculate, Report.result_bind, ← hinline, hprogram, calculate, Report.result_bind, houter]
  exact hresult _ hprogram

end Calculator

end BeamCalc
