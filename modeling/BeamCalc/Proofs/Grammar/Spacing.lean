import BeamCalc.Proofs.Grammar.Correspondence
import BeamCalc.Proofs.Token.Spacing

/-!
# Programs of texts with other separators

Separators do not matter to an expression, except between a sign and a number that touches it: texts
that differ in them otherwise write the same program or have the same fault
(`Program.ofText_respaced`). Their tokens are alike, and the grammar reads lists that are alike in
the same way.
-/

set_option autoImplicit false
set_option relaxedAutoImplicit false

namespace BeamCalc.Program

open Grammar

variable {text text' : String}

/-- Texts that differ in separators write the same program or fail with the same fault. -/
theorem ofText_respaced (vocabulary : Vocabulary) (h : Token.Respaces text.toList text'.toList) :
    (ofText vocabulary text).mapError ParseError.fault =
      (ofText vocabulary text').mapError ParseError.fault := by
  refine Agree.mapError_eq ((Token.scansAlike_ofText h).bind fun tokens tokens' _ halike ↦ ?_)
  have hagree := @ofTokens_corresponds ⟨vocabulary, text.utf8ByteSize, tokens⟩
    ⟨vocabulary, text'.utf8ByteSize, tokens'⟩ (fun _ _ _ ↦ rfl) halike
  exact hagree.mono (fun _ _ hfault ↦ hfault.fault_eq) fun _ _ hprogram ↦ hprogram

/-- A blank and a tab between a name and the mark after it. -/
theorem ofText_respaced_sum :
    Token.Respaces "x+y".toList "x \t+y".toList ∧
    (ofText .standard "x+y").mapError ParseError.fault =
      (ofText .standard "x \t+y").mapError ParseError.fault ∧
    ofText .standard "x \t+y" = .ok ⟨[.load "x", .load "y", .operator '+']⟩ := by
  have hname : Lexeme.first? "x+y".toList = some ⟨['x'], ['+', 'y'], some (.name "x")⟩ := by decide
  have hmark := Token.first?_mark .plus ['y']
  obtain ⟨-, hword, hspells⟩ := Token.first?_eq_some_iff.mp hname
  obtain ⟨-, hword', hspells'⟩ := Token.first?_eq_some_iff.mp hmark
  have hgap : Token.IsGap [' ', '\t'] := by simp [Token.IsGap, Lexicon.separators]
  have hrespaces : Token.Respaces "x+y".toList "x \t+y".toList :=
    @Token.Respaces.between [] ['x'] ['+'] ['y'] [' ', '\t'] [] _ _ .nil hword hspells hword'
      hspells' (fun _ _ hsign ↦ by cases hsign) hgap
  have hprogram : ofText .standard "x \t+y" = .ok ⟨[.load "x", .load "y", .operator '+']⟩ := by
    decide +kernel
  have hsame := @ofText_respaced "x+y" "x \t+y" .standard hrespaces
  exact ⟨hrespaces, hsame, hprogram⟩

end BeamCalc.Program
