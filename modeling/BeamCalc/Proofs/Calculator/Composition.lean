import BeamCalc.Proofs.Calculator.Failure
import BeamCalc.Proofs.Grammar.Placement

/-!
# Texts that are put together

Bracketed texts may be put together by an operator, by a call or by a minus, and bracketed once
more. `Program.Writes` says what a text is compiled to and how deep it is; the lemmas below it say
this of the texts that are put together. What they evaluate to is the operation applied to what the
parts evaluate to (`Outcome.map`, `Outcome.combine`), because each part is evaluated alone.
-/

set_option autoImplicit false
set_option relaxedAutoImplicit false

namespace BeamCalc

open Grammar

namespace Program

/-- A text that is compiled to the instructions and has at most so many nesting levels. -/
def Writes (vocabulary : Vocabulary) (levels : Nat) (text : String)
    (instructions : List Instruction) : Prop :=
  ∃ phrase : Phrase .sum, Token.ofText text = .ok phrase.tokens ∧ phrase.CallsFit vocabulary ∧
    phrase.depth ≤ levels ∧ phrase.emission = instructions

namespace Writes

variable {vocabulary : Vocabulary} {levels levels' : Nat} {first second : String}
  {instructions instructions' : List Instruction}

/-- A text is a program exactly if it has at most as many levels as the limit allows. -/
theorem nestingLimit_iff : Writes vocabulary nestingLimit first instructions ↔
    ofText vocabulary first = .ok ⟨instructions⟩ :=
  (@ofText_eq_ok_iff vocabulary first ⟨instructions⟩).symm

theorem mono (h : Writes vocabulary levels first instructions) (hlevels : levels ≤ levels') :
    Writes vocabulary levels' first instructions := by
  obtain ⟨phrase, htokens, hfits, hdepth, hemission⟩ := h
  exact ⟨phrase, htokens, hfits, Nat.le_trans hdepth hlevels, hemission⟩

/-- The instructions of a text are in postfix order. -/
theorem isPostfix (h : Writes vocabulary levels first instructions) :
    Postfix vocabulary instructions := by
  obtain ⟨phrase, -, hfits, -, rfl⟩ := h
  exact phrase.emitsPostfix hfits

/-- A text in brackets. -/
theorem bracketed (h : Writes vocabulary levels first instructions) :
    Writes vocabulary (levels + 1) ("(" ++ first ++ ")") instructions := by
  obtain ⟨phrase, htokens, hfits, hdepth, rfl⟩ := h
  have hscans := (Token.ofText_eq_ok_iff.mp htokens).bracketed 0 .nil
  refine ⟨Phrase.ofOperand (.unsigned (phrase.bracketed 0 (Text.byteLength first.toList))),
    ?_, ?_, ?_, ?_⟩
  · rw [Token.ofText_eq_ok_iff]
    simpa [Phrase.tokens] using hscans
  · simpa [Phrase.CallsFit] using hfits
  · simpa [Phrase.depth] using hdepth
  · simp [Phrase.emission]

/-- A minus before a text in brackets. -/
theorem negated (h : Writes vocabulary levels first instructions) :
    Writes vocabulary (levels + 1) ("-(" ++ first ++ ")") (instructions ++ [.negate]) := by
  obtain ⟨phrase, htokens, hfits, hdepth, rfl⟩ := h
  have hscans := ((Token.ofText_eq_ok_iff.mp htokens).bracketed 1 .nil).mark .minus
  refine ⟨Phrase.ofOperand
    (.negated 0 (.bare (phrase.bracketed 1 (Text.byteLength first.toList)))), ?_, ?_, ?_, ?_⟩
  · rw [Token.ofText_eq_ok_iff]
    simpa [Phrase.tokens, Mark.symbol] using hscans
  · simpa [Phrase.CallsFit] using hfits
  · simpa [Phrase.depth] using hdepth
  · simp [Phrase.emission]

/-- A call with one argument. -/
theorem called (h : Writes vocabulary levels first instructions) {name : String}
    (hname : Token.IsBareName name) (harity : vocabulary.arity name = 1) :
    Writes vocabulary (levels + 1) (name ++ "(" ++ first ++ ")")
      (instructions ++ [.function name]) := by
  obtain ⟨phrase, htokens, hfits, hdepth, rfl⟩ := h
  have hargument := (Token.ofText_eq_ok_iff.mp htokens).followed
    (0 + Text.byteLength name.toList + 1) Token.isDivider_closeParen .nil
  have hscans := (Token.ofText_eq_ok_iff.mp hname).append Token.isDivider_openParen
    (hargument.mark .openParen)
  generalize 0 + Text.byteLength name.toList = opening at hscans
  refine ⟨Phrase.ofOperand (.unsigned (.call 0 name opening (.last (phrase.moved (opening + 1)))
    (opening + 1 + Text.byteLength first.toList))), ?_, ?_, ?_, ?_⟩
  · rw [Token.ofText_eq_ok_iff]
    simpa [Phrase.tokens, Mark.symbol] using hscans
  · simpa [Phrase.CallsFit, Phrase.count, harity] using hfits
  · simpa [Phrase.depth] using hdepth
  · simp [Phrase.emission]

/-- A call with two arguments. -/
theorem calledWith (hfirst : Writes vocabulary levels first instructions)
    (hsecond : Writes vocabulary levels second instructions') {name : String}
    (hname : Token.IsBareName name) (harity : vocabulary.arity name = 2) :
    Writes vocabulary (levels + 1) (name ++ "(" ++ first ++ "," ++ second ++ ")")
      (instructions ++ instructions' ++ [.function name]) := by
  obtain ⟨phrase, htokens, hfits, hdepth, rfl⟩ := hfirst
  obtain ⟨phrase', htokens', hfits', hdepth', rfl⟩ := hsecond
  have hfollowed := (Token.ofText_eq_ok_iff.mp htokens').followed
    (0 + Text.byteLength name.toList + 1 + Text.byteLength first.toList + 1)
    Token.isDivider_closeParen .nil
  have harguments := (Token.ofText_eq_ok_iff.mp htokens).followed
    (0 + Text.byteLength name.toList + 1) Token.isDivider_comma hfollowed
  have hscans := (Token.ofText_eq_ok_iff.mp hname).append Token.isDivider_openParen
    (harguments.mark .openParen)
  generalize 0 + Text.byteLength name.toList = opening at hscans
  generalize opening + 1 + Text.byteLength first.toList = comma at hscans
  refine ⟨Phrase.ofOperand (.unsigned (.call 0 name opening
    (.further (phrase.moved (opening + 1)) comma (.last (phrase'.moved (comma + 1))))
    (comma + 1 + Text.byteLength second.toList))), ?_, ?_, ?_, ?_⟩
  · rw [Token.ofText_eq_ok_iff]
    simpa [Phrase.tokens, Mark.symbol] using hscans
  · simpa [Phrase.CallsFit, Phrase.count, harity] using And.intro hfits hfits'
  · simpa [Phrase.depth] using Nat.max_le.mpr ⟨hdepth, hdepth'⟩
  · simp [Phrase.emission]

/-- Two texts in brackets and an operator between them. The right side of `^` opens a level. -/
theorem joined (hfirst : Writes vocabulary levels first instructions) {sign : Mark}
    (hsecond : Writes vocabulary levels' second instructions') (hsign : sign.isOperator)
    (hlevels : levels' + (if sign = .power then 1 else 0) ≤ levels) :
    Writes vocabulary (levels + 1)
      ("(" ++ first ++ ")" ++ String.singleton sign.symbol ++ "(" ++ second ++ ")")
      (instructions ++ instructions' ++ [.operator sign.symbol]) := by
  obtain ⟨phrase, htokens, hfits, hdepth, rfl⟩ := hfirst
  obtain ⟨phrase', htokens', hfits', hdepth', rfl⟩ := hsecond
  have hright := (Token.ofText_eq_ok_iff.mp htokens').bracketed
    (0 + 1 + Text.byteLength first.toList + 1 + 1) .nil
  have hscans := (Token.ofText_eq_ok_iff.mp htokens).bracketed 0 (hright.mark sign)
  obtain ⟨whole, hwhole, hemission, hlimit, hcalls⟩ := Phrase.exists_joined
    (.unsigned (phrase.bracketed 0 (Text.byteLength first.toList)))
    (.unsigned (phrase'.bracketed (0 + 1 + Text.byteLength first.toList + 1 + 1)
      (Text.byteLength second.toList)))
    hsign (0 + 1 + Text.byteLength first.toList + 1)
  refine ⟨whole, ?_, hcalls vocabulary ?_ ?_, ?_, ?_⟩
  · rw [Token.ofText_eq_ok_iff, hwhole]
    simpa [Phrase.tokens] using hscans
  · simpa [Phrase.CallsFit] using hfits
  · simpa [Phrase.CallsFit] using hfits'
  · simp only [Phrase.depth, Phrase.depth_bracketed] at hlimit
    omega
  · rw [hemission]
    simp [Phrase.emission]

end Writes

end Program

namespace Calculator

/-- What instructions evaluate to. -/
def outcome (calculator : Calculator) (values : Table String Float)
    (instructions : List Instruction) : Outcome :=
  Program.evaluate ⟨instructions⟩ (calculator.setting values)

variable {calculator : Calculator}

/-- A text within the nesting limit is compiled. -/
theorem compile_of_writes {text : String} {instructions : List Instruction}
    (h : Program.Writes calculator.vocabulary nestingLimit text instructions) :
    (calculator.compile text).result = .ok ⟨instructions⟩ :=
  compile_eq_ok_iff.mpr (Program.Writes.nestingLimit_iff.mp h)

/-- Compilation and evaluation are compositional. A text that is put together from bracketed texts
is compiled to their instructions and that of the operation, and its evaluation has an outcome that
is put together from theirs; what an unknown function is called with is not evaluated. -/
theorem compile_evaluate_compositional (hbuilt : calculator.vocabulary.IsBuilt)
    (values : Table String Float) {first second : String} {left right : List Instruction}
    (hfirst : Program.Writes calculator.vocabulary 255 first left)
    (hsecond : Program.Writes calculator.vocabulary 255 second right) :
    (calculator.compile ("(" ++ first ++ ")")).result = .ok ⟨left⟩ ∧
    ((calculator.compile ("-(" ++ first ++ ")")).result = .ok ⟨left ++ [.negate]⟩ ∧
      calculator.outcome values (left ++ [.negate]) =
        (calculator.outcome values left).map Float.neg) ∧
    (∀ name, Token.IsBareName name → calculator.vocabulary.isBinary name = false →
      (calculator.compile (name ++ "(" ++ first ++ ")")).result =
        .ok ⟨left ++ [.function name]⟩ ∧
      calculator.outcome values (left ++ [.function name]) =
        match calculator.vocabulary.unary name with
        | some meaning => (calculator.outcome values left).map meaning
        | none => ⟨.error (.unknownFunction name), []⟩) ∧
    (∀ name meaning, Token.IsBareName name → calculator.vocabulary.binary name = some meaning →
      (calculator.compile (name ++ "(" ++ first ++ "," ++ second ++ ")")).result =
        .ok ⟨left ++ right ++ [.function name]⟩ ∧
      calculator.outcome values (left ++ right ++ [.function name]) =
        .combine meaning (calculator.outcome values left) (calculator.outcome values right)) ∧
    ∀ sign : Mark, sign.isOperator →
      (sign = .power → Program.Writes calculator.vocabulary 254 second right) →
      (calculator.compile
        ("(" ++ first ++ ")" ++ String.singleton sign.symbol ++ "(" ++ second ++ ")")).result =
        .ok ⟨left ++ right ++ [.operator sign.symbol]⟩ ∧
      ∃ meaning, calculator.vocabulary.operator sign.symbol = some meaning ∧
        calculator.outcome values (left ++ right ++ [.operator sign.symbol]) =
          .combine meaning (calculator.outcome values left)
            (calculator.outcome values right) := by
  have hconsistent : (calculator.setting values).vocabulary.IsConsistent := hbuilt.isConsistent
  have hleft : Postfix (calculator.setting values).vocabulary left := hfirst.isPostfix
  have hright : Postfix (calculator.setting values).vocabulary right := hsecond.isPostfix
  refine ⟨compile_of_writes hfirst.bracketed, ⟨compile_of_writes hfirst.negated, ?_⟩, ?_, ?_, ?_⟩
  · exact hleft.evaluate_unary hconsistent rfl
  · intro name hname hbinary
    have harity : calculator.vocabulary.arity name = 1 := by
      rw [Vocabulary.arity, hbinary]
      rfl
    refine ⟨compile_of_writes (hfirst.called hname harity), ?_⟩
    have hnone := Vocabulary.binary_eq_none_of_arity_eq_one harity
    cases hunary : calculator.vocabulary.unary name with
    | some meaning =>
      refine hleft.evaluate_unary hconsistent ?_
      simp only [Setting.contribution, setting, hunary]
    | none =>
      refine (Setting.Yields.refused left ?_).evaluate_eq
      simp only [Setting.contribution, setting, hunary, hnone]
  · intro name meaning hname hbinary
    have harity : calculator.vocabulary.arity name = 2 := by
      rw [Vocabulary.arity, Vocabulary.isBinary, hbinary]
      rfl
    refine ⟨compile_of_writes (hfirst.calledWith hsecond hname harity), ?_⟩
    refine hleft.evaluate_binary hconsistent hright ?_
    have hunary := (hconsistent.of_arity_eq_two harity).1
    simp only [Setting.contribution, hunary]
    simp only [setting, hbinary]
  · intro sign hsign hpower
    obtain ⟨meaning, hmeaning⟩ := hconsistent.exists_operator hsign
    refine ⟨compile_of_writes ?_, meaning, hmeaning, ?_⟩
    · by_cases hraised : sign = .power
      · exact hfirst.joined (hpower hraised) hsign (by simp [hraised])
      · exact hfirst.joined hsecond hsign (by simp [hraised])
    · refine hleft.evaluate_binary hconsistent hright ?_
      simp only [Setting.contribution, hmeaning]

/-- Where neither name has a value, the exponent is the one that is missed. -/
theorem compile_evaluate_compositional_power :
    Program.Writes Vocabulary.standard 254 "x" [.load "x"] ∧
    Program.Writes Vocabulary.standard 254 "y" [.load "y"] ∧
    (compile { policy := { strict := true } } "(x)^(y)").result =
      .ok ⟨[.load "x", .load "y", .operator '^']⟩ ∧
    outcome { policy := { strict := true } } (fun _ ↦ none)
        [.load "x", .load "y", .operator '^'] =
      ⟨.error (.undefinedVariable "y"), [.query "y"]⟩ := by
  have hfirst : Program.Writes Vocabulary.standard 254 "x" [.load "x"] :=
    ⟨Phrase.ofOperand (.unsigned (.named 0 "x")), by decide +kernel, by simp [Phrase.CallsFit],
      by simp [Phrase.depth], by simp [Phrase.emission]⟩
  have hsecond : Program.Writes Vocabulary.standard 254 "y" [.load "y"] :=
    ⟨Phrase.ofOperand (.unsigned (.named 0 "y")), by decide +kernel, by simp [Phrase.CallsFit],
      by simp [Phrase.depth], by simp [Phrase.emission]⟩
  have hbuilt : (Calculator.mk .standard { strict := true }).vocabulary.IsBuilt := ⟨[], rfl⟩
  obtain ⟨-, -, -, -, hoperators⟩ := compile_evaluate_compositional hbuilt (fun _ ↦ none)
    (hfirst.mono (by decide)) (hsecond.mono (by decide))
  obtain ⟨hcompile, meaning, -, houtcome⟩ := hoperators .power rfl fun _ ↦ hsecond
  exact ⟨hfirst, hsecond, hcompile, houtcome⟩

end Calculator

end BeamCalc
