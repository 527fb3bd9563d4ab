import BeamCalc.Proofs.Grammar.Location
import BeamCalc.Proofs.Script.Statement
import BeamCalc.Proofs.Text.Cut
import BeamCalc.Proofs.Token.Characters

/-!
# Assignments

A line is an assignment if what stands before its sign of assignment is a name between blanks. The
sign is the first `:=` of the line, or its first `=` if there is no `:=` (`StandsAtSign`). Neither
character of the signs is written in any word, so an expression with one of them is refused where it
is scanned. `Statement.ofLine_splits` puts this together: a name, a sign and a text make an
assignment, every assignment is made so, and no line with a character of the signs does anything
else than assign the value of an expression without them.
-/

set_option autoImplicit false
set_option relaxedAutoImplicit false

namespace BeamCalc

open Text Lexicon

/-! ### Names between blanks -/

namespace Token

variable {text : List Char}

/-- The text of one name is made up of separators, the name and separators. -/
theorem Scans.exists_name {position place : Nat} {name : String}
    (h : Scans position text [⟨.name name, place⟩]) : ∃ before word after,
      before ++ word ++ after = text ∧ (∀ character ∈ before, character ∈ separators) ∧
        (∀ character ∈ after, character ∈ separators) ∧ word ∈ Lexicon.name := by
  generalize htokens : [(⟨.name name, place⟩ : PlacedToken)] = tokens at h
  induction h with
  | nil => cases htokens
  | @separator position first rest tokens hseparator hrest ih =>
    obtain ⟨before, word, after, rfl, hbefore, hafter, hword⟩ := ih htokens
    exact ⟨first :: before, word, after, rfl,
      List.forall_mem_cons.mpr ⟨isSeparator_iff.mp hseparator, hbefore⟩, hafter, hword⟩
  | @lexeme position first others taken rest token tokens hseparator hlexeme hrest =>
    obtain ⟨hplaced, rfl⟩ := List.cons.inj htokens
    obtain ⟨rfl, rfl⟩ := PlacedToken.mk.inj hplaced
    obtain ⟨htext, -, hspells⟩ := first?_eq_some_iff.mp hlexeme
    refine ⟨[], taken, rest, htext, List.forall_mem_nil _, scans_nil_iff.mp hrest, ?_⟩
    cases hspells with
    | name hword => exact hword

/-- A text that is one name is made up of blanks, the name and blanks. -/
theorem exists_name_of_isName (h : isName text) : ∃ before word after,
    before ++ word ++ after = text ∧ before.all isBlank ∧ after.all isBlank ∧
      word ∈ Lexicon.name := by
  unfold isName at h
  split at h
  · rename_i hscan
    obtain ⟨before, word, after, htext, hbefore, hafter, hword⟩ :=
      (scan_eq_ok_iff.mp hscan).exists_name
    exact ⟨before, word, after, htext,
      List.all_eq_true.mpr fun character hmem ↦ isBlank_of_mem_separators (hbefore character hmem),
      List.all_eq_true.mpr fun character hmem ↦ isBlank_of_mem_separators (hafter character hmem),
      hword⟩
  · cases h

theorem isName_of_mem_name (h : text ∈ Lexicon.name) : isName text := by
  obtain ⟨first, others, rfl, hfirst, hothers⟩ := mem_name_iff.mp h
  have hbare : IsBareName (String.ofList (first :: others)) :=
    isBareName_iff.mpr ⟨first, others, String.toList_ofList, hfirst, hothers⟩
  rw [IsBareName, ofText, String.toList_ofList] at hbare
  rw [isName, hbare]

/-- A text without blanks at its ends is one name exactly if it is in the language of names. -/
theorem isName_trim_iff : isName (trim text) ↔ trim text ∈ Lexicon.name := by
  refine ⟨fun h ↦ ?_, isName_of_mem_name⟩
  obtain ⟨before, name, after, htrim, hbefore, hafter, hname⟩ := exists_name_of_isName h
  obtain ⟨left, right, hleft, hright, htext⟩ := exists_trim text
  have hwhole : trim ((left ++ before) ++ name ++ (after ++ right)) = name :=
    trim_append (by rw [List.all_append, hleft, hbefore]; rfl)
      (by rw [List.all_append, hafter, hright]; rfl) (not_isBlank_of_mem_name hname)
  have hsame : (left ++ before) ++ name ++ (after ++ right) = text := by
    rw [← htext, ← htrim]
    simp only [List.append_assoc]
  rw [hsame] at hwhole
  rwa [hwhole]

end Token

/-! ### Signs of assignment -/

namespace Statement

/-- The characters of the signs of assignment. -/
def signCharacters : List Char :=
  [':', '=']

/-- A sign of assignment stands in a line, with a text before it and a text after it: the first
`:=`, or the first `=` if there is no `:=`. -/
def StandsAtSign (line before sign rest : List Char) : Prop :=
  (sign = [':', '='] ∨ sign = ['='] ∧ ¬[':', '='] <:+: line) ∧ StandsFirst sign line before rest

variable {line before rest : List Char}

/-- The sides of a line are what stands before and after its sign of assignment. -/
theorem sides?_eq_some_iff :
    sides? line = some (before, rest) ↔ ∃ sign, StandsAtSign line before sign rest := by
  change (cut? [':', '='] line).or (cut? ['='] line) = _ ↔ _
  match hcut : cut? [':', '='] line with
  | some sides =>
    rw [Option.some_or, ← hcut, cut?_eq_some_iff]
    constructor
    · exact fun h ↦ ⟨_, .inl rfl, h⟩
    · rintro ⟨sign, rfl | ⟨rfl, hno⟩, h⟩
      · exact h
      · rw [cut?_eq_none_iff.mpr hno] at hcut
        cases hcut
  | none =>
    have hno := cut?_eq_none_iff.mp hcut
    rw [Option.none_or, cut?_eq_some_iff]
    constructor
    · exact fun h ↦ ⟨_, .inr ⟨rfl, hno⟩, h⟩
    · rintro ⟨sign, rfl | ⟨rfl, -⟩, h⟩
      · exact absurd ⟨before, rest, h.append_eq⟩ hno
      · exact h

/-- A line with a name on its left side is an assignment to it. -/
theorem ofLine_of_isName {line : String} {left right : List Char}
    (hsides : sides? line.toList = some (left, right)) (hname : isName (trim left)) :
    ofLine line = ⟨some (String.ofList (trim left)), String.ofList (trim right)⟩ := by
  rw [ofLine, hsides]
  exact if_pos hname

/-- A line has a name on its left side or is an expression as a whole. -/
theorem isName_or_ofLine_eq (line : String) :
    (∃ left right, sides? line.toList = some (left, right) ∧ isName (trim left)) ∨
      ofLine line = ⟨none, line⟩ := by
  match hsides : sides? line.toList with
  | none => exact .inr (by rw [ofLine, hsides])
  | some (left, right) =>
    by_cases hname : isName (trim left)
    · exact .inl ⟨left, right, rfl, hname⟩
    · refine .inr ?_
      rw [ofLine, hsides]
      exact if_neg hname

/-- A name between blanks, its sign and a text are an assignment of the text to the name. -/
theorem ofLine_of_standsAtSign {line : String} {before name after sign expression : List Char}
    (hbefore : before.all isBlank) (hafter : after.all isBlank) (hname : name ∈ Lexicon.name)
    (hsign : StandsAtSign line.toList (before ++ name ++ after) sign expression) :
    ofLine line = ⟨some (String.ofList name), String.ofList (trim expression)⟩ := by
  have htrim : trim (before ++ name ++ after) = name :=
    trim_append hbefore hafter (not_isBlank_of_mem_name hname)
  have hsides := sides?_eq_some_iff.mpr ⟨sign, hsign⟩
  have hword : isName (trim (before ++ name ++ after)) := by
    rw [htrim]
    exact Token.isName_of_mem_name hname
  rw [ofLine_of_isName hsides hword, htrim]

/-- The target of an assignment is a name that stands, between blanks, before the sign. -/
theorem exists_standsAtSign {line name : String} (h : (ofLine line).target = some name) :
    ∃ before after sign expression, before.all isBlank ∧ after.all isBlank ∧
      name.toList ∈ Lexicon.name ∧
      StandsAtSign line.toList (before ++ name.toList ++ after) sign expression ∧
      (ofLine line).expression = String.ofList (trim expression) := by
  rcases isName_or_ofLine_eq line with ⟨left, right, hsides, hname⟩ | hplain
  · obtain ⟨sign, hsign⟩ := sides?_eq_some_iff.mp hsides
    obtain ⟨before, after, hbefore, hafter, hleft⟩ := exists_trim left
    rw [ofLine_of_isName hsides hname] at h ⊢
    obtain rfl := Option.some.inj h
    rw [String.toList_ofList]
    refine ⟨before, after, sign, right, hbefore, hafter, Token.isName_trim_iff.mp hname, ?_, rfl⟩
    rw [hleft]
    exact hsign
  · rw [hplain] at h
    cases h

/-! ### Expressions with a character of the signs -/

variable {calculator : Calculator} {task : Task} {echo : Bool} {bindings : Bindings}

/-- The characters of the signs are neither blanks nor characters of words. -/
theorem foreign_of_mem_signCharacters {character : Char} (h : character ∈ signCharacters) :
    ¬isBlank character ∧ isWordChar character = false := by
  simp only [signCharacters, List.mem_cons, List.not_mem_nil, or_false] at h
  rcases h with rfl | rfl <;> exact ⟨by decide, by decide⟩

/-- A statement whose expression has a character of the signs in it is refused where that is
scanned. -/
theorem exists_result_run_of_mem {statement : Statement} {character : Char}
    (hsign : character ∈ signCharacters) (hmem : character ∈ statement.expression.toList) :
    ∃ word position, (statement.run calculator task echo bindings).result =
      .error (.parse ⟨.unexpectedCharacter word, position⟩) := by
  obtain ⟨hblank, hword⟩ := foreign_of_mem_signCharacters hsign
  obtain ⟨word, position, hscan⟩ :=
    Token.exists_ofText_eq_error hmem (mt isBlank_of_mem_separators hblank) hword
  refine ⟨word, position, ?_⟩
  have hparse : Program.ofText calculator.vocabulary statement.expression = _ :=
    Program.ofText_eq_unexpectedCharacter_iff.mpr hscan
  have hcompile : (calculator.compile statement.expression).result =
      .error (.parse ⟨.unexpectedCharacter word, position⟩) := by
    rw [Calculator.compile, hparse]
  rw [run, Report.result_bind, hcompile]
  rfl

/-- No character of a name begins a sign of assignment, and no blank does. -/
theorem not_mem_signCharacters {before name after : List Char} {character : Char}
    (hbefore : before.all isBlank) (hafter : after.all isBlank) (hname : name ∈ Lexicon.name)
    (hsign : character ∈ signCharacters) : character ∉ before ++ name ++ after := by
  obtain ⟨hblank, hword⟩ := foreign_of_mem_signCharacters hsign
  simp only [List.mem_append, not_or]
  refine ⟨⟨fun hmem ↦ ?_, ?_⟩, fun hmem ↦ ?_⟩
  · exact hblank (List.all_eq_true.mp hbefore character hmem)
  · exact not_mem_of_all (isWordChar_of_mem_lexeme (.inl (.inr hname))) hword
  · exact hblank (List.all_eq_true.mp hafter character hmem)

/-- A line with `:=` behind a text without its characters. -/
theorem standsAtSign_colon {before : List Char} (h : ':' ∉ before) (expression : List Char) :
    StandsAtSign (before ++ [':', '='] ++ expression) before [':', '='] expression :=
  ⟨.inl rfl, .of_not_mem h ['='] expression⟩

/-- A line with `=` behind a text without the characters of signs, and no `:=` after it. -/
theorem standsAtSign_equals {before expression : List Char} (hcolon : ':' ∉ before)
    (hequals : '=' ∉ before) (hexpression : ¬[':', '='] <:+: expression) :
    StandsAtSign (before ++ ['='] ++ expression) before ['='] expression := by
  refine ⟨.inr ⟨rfl, ?_⟩, .of_not_mem hequals [] expression⟩
  clear hequals
  induction before with
  | nil =>
    intro hwithin
    rcases List.infix_cons_iff.mp hwithin with hprefix | hlater
    · cases (List.cons_prefix_cons.mp hprefix).1
    · exact hexpression hlater
  | cons first before ih =>
    intro hwithin
    obtain ⟨hfirst, hbefore⟩ := not_or.mp (mt List.mem_cons.mpr hcolon)
    rcases List.infix_cons_iff.mp hwithin with hprefix | hlater
    · exact hfirst (List.cons_prefix_cons.mp hprefix).1
    · exact ih hbefore hlater

/-- A line with a character of the signs assigns the value of an expression without them, or it is
refused and binds nothing. -/
theorem target_or_result_of_mem {line : String} {character : Char}
    (hsign : character ∈ signCharacters) (hmem : character ∈ line.toList) (calculator : Calculator)
    (task : Task) (echo : Bool) (bindings : Bindings) :
    ((∃ name, (ofLine line).target = some name) ∧
      ∀ character ∈ signCharacters, character ∉ (ofLine line).expression.toList) ∨
    (∃ word position, ((ofLine line).run calculator task echo bindings).result =
      .error (.parse ⟨.unexpectedCharacter word, position⟩)) ∧
    ∀ number, (Script.step calculator task bindings number line).bindings = bindings := by
  by_cases hfound : ∃ character ∈ signCharacters, character ∈ (ofLine line).expression.toList
  · obtain ⟨found, hfoundSign, hfoundMem⟩ := hfound
    refine .inr ⟨exists_result_run_of_mem hfoundSign hfoundMem, fun number ↦ ?_⟩
    obtain ⟨word, position, hresult⟩ : ∃ word position,
        ((ofLine line).run calculator task true bindings).result =
          .error (.parse ⟨.unexpectedCharacter word, position⟩) :=
      exists_result_run_of_mem hfoundSign hfoundMem
    rw [Script.bindings_step, hresult]
  · refine .inl ⟨?_, fun character hsign hmem ↦ hfound ⟨character, hsign, hmem⟩⟩
    rcases isName_or_ofLine_eq line with ⟨left, right, hsides, hname⟩ | hplain
    · rw [ofLine_of_isName hsides hname]
      exact ⟨_, rfl⟩
    · rw [hplain] at hfound
      exact absurd ⟨character, hsign, hmem⟩ hfound

/-- A name between blanks, a sign of assignment and a text make an assignment, with `=` if the text
has no `:=` in it. Conversely every target is a name that stands between blanks before the sign of
its line. A line with a character of the signs has a target and an expression without these
characters, or it is refused where it is scanned and binds nothing. -/
theorem ofLine_splits :
    (∀ before name after expression : List Char, before.all isBlank → after.all isBlank →
      name ∈ Lexicon.name →
      ofLine (String.ofList (before ++ name ++ after ++ [':', '='] ++ expression)) =
          ⟨some (String.ofList name), String.ofList (trim expression)⟩ ∧
        (¬[':', '='] <:+: expression →
          ofLine (String.ofList (before ++ name ++ after ++ ['='] ++ expression)) =
            ⟨some (String.ofList name), String.ofList (trim expression)⟩)) ∧
    (∀ line name, (ofLine line).target = some name →
      ∃ before after sign expression, before.all isBlank ∧ after.all isBlank ∧
        name.toList ∈ Lexicon.name ∧
        StandsAtSign line.toList (before ++ name.toList ++ after) sign expression ∧
        (ofLine line).expression = String.ofList (trim expression)) ∧
    ∀ line : String, (∃ character ∈ signCharacters, character ∈ line.toList) →
      ∀ (calculator : Calculator) (task : Task) (echo : Bool) (bindings : Bindings),
      ((∃ name, (ofLine line).target = some name) ∧
        ∀ character ∈ signCharacters, character ∉ (ofLine line).expression.toList) ∨
      (∃ word position, ((ofLine line).run calculator task echo bindings).result =
        .error (.parse ⟨.unexpectedCharacter word, position⟩)) ∧
      ∀ number, (Script.step calculator task bindings number line).bindings = bindings := by
  refine ⟨fun before name after expression hbefore hafter hname ↦ ?_,
    fun line name h ↦ exists_standsAtSign h,
    fun line ⟨character, hsign, hmem⟩ ↦ target_or_result_of_mem hsign hmem⟩
  have hcolon : ':' ∉ before ++ name ++ after :=
    not_mem_signCharacters hbefore hafter hname (by decide)
  have hequals : '=' ∉ before ++ name ++ after :=
    not_mem_signCharacters hbefore hafter hname (by decide)
  constructor
  · have hsign := standsAtSign_colon hcolon expression
    rw [← String.toList_ofList (l := before ++ name ++ after ++ [':', '='] ++ expression)] at hsign
    exact ofLine_of_standsAtSign hbefore hafter hname hsign
  · intro hexpression
    have hsign := standsAtSign_equals hcolon hequals hexpression
    rw [← String.toList_ofList (l := before ++ name ++ after ++ ['='] ++ expression)] at hsign
    exact ofLine_of_standsAtSign hbefore hafter hname hsign

/-- An assignment, and a chain of two, of which neither part is bound. -/
theorem ofLine_splits_chain :
    ofLine " k1 = 2*a" = ⟨some "k1", "2*a"⟩ ∧
    ∀ bindings : Bindings, (∃ word position,
        ((ofLine "a = b := 1").run {} .value true bindings).result =
          .error (.parse ⟨.unexpectedCharacter word, position⟩)) ∧
      ∀ number, (Script.step {} .value bindings number "a = b := 1").bindings = bindings := by
  obtain ⟨hmakes, -, hrefuses⟩ := ofLine_splits
  constructor
  · have hname : ['k', '1'] ∈ Lexicon.name := mem_name_iff.mpr ⟨'k', ['1'], rfl, rfl, rfl⟩
    exact (hmakes [' '] ['k', '1'] [' '] [' ', '2', '*', 'a'] rfl rfl hname).2 (by decide)
  · intro bindings
    have hwhole : ofLine "a = b := 1" = ⟨none, "a = b := 1"⟩ := by decide +kernel
    rcases hrefuses "a = b := 1" ⟨'=', by decide, by decide⟩ {} .value true bindings with
      ⟨⟨name, hname⟩, -⟩ | hrefused
    · rw [hwhole] at hname
      cases hname
    · exact hrefused

end Statement

end BeamCalc
