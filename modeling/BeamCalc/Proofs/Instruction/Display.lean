import BeamCalc.Proofs.Grammar.Roles
import BeamCalc.Proofs.Token.Characters

/-!
# The text of a program

The text of an instruction tells what it is (`Instruction.text_injective`), but the text of a
program need not: a name may hold what looks like the end of one instruction and the beginning of
another. What is compiled from a text is free of this. Its names are words, its operators are marks,
and its numbers are numbers (`Program.isWritten_of_ofText`), so no text of an instruction has a
blank (`Instruction.IsWritten.not_mem_text`) and the text of the program falls apart at its blanks
into those of the instructions (`Program.splitOn_text`). So two programs with one text are the same
program (`Program.eq_of_text_eq`).
-/

set_option autoImplicit false
set_option relaxedAutoImplicit false

namespace BeamCalc

open Lexicon

/-! ### The text of an instruction -/

namespace Instruction

variable {instruction : Instruction}

/-- The beginning of the text of an instruction. -/
def kindText : Instruction → List Char
  | number _ => ['<', 'n', 'u', 'm', 'b', 'e', 'r', ':']
  | load _ => ['<', 'i', 'd', 'e', 'n', 't', ':']
  | operator _ => ['<', 'o', 'p', 'e', 'r', 'a', 't', 'o', 'r', ':']
  | function _ => ['<', 'f', 'u', 'n', 'c', 't', 'i', 'o', 'n', ':']
  | negate => ['<', 'u', 'n', 'a', 'r', 'y', '_', 'm', 'i', 'n', 'u', 's']

/-- What an instruction holds, as its text shows it. -/
def contentText : Instruction → List Char
  | number value => (Number.plain value).toList
  | load name | function name => name.toList
  | operator symbol => [symbol]
  | negate => []

theorem toList_text (instruction : Instruction) :
    instruction.text.toList = instruction.kindText ++ instruction.contentText ++ ['>'] := by
  cases instruction with
  | number | load | function | operator => simp [text, kindText, contentText, toString]
  | negate => rfl

/-- The letter that tells the kind of an instruction. -/
def initial : Instruction → Char
  | number _ => 'n'
  | load _ => 'i'
  | operator _ => 'o'
  | function _ => 'f'
  | negate => 'u'

theorem getElem?_text (instruction : Instruction) :
    instruction.text.toList[1]? = some instruction.initial := by
  rw [toList_text, List.append_assoc]
  cases instruction <;> rfl

/-- Different instructions have different texts. -/
theorem text_injective : Function.Injective text := by
  intro first second h
  have hinitial : first.initial = second.initial := by
    rw [← Option.some_inj, ← getElem?_text, ← getElem?_text, h]
  have htext := congrArg String.toList h
  rw [toList_text, toList_text] at htext
  have hshown := List.append_cancel_right htext
  -- The letter leaves instructions of one kind, which show what they hold behind one beginning.
  cases first with
  | number value =>
    cases second with
    | number other =>
      have hplain := String.toList_inj.mp (List.append_cancel_left hshown)
      rw [Number.plain_injective hplain]
    | _ => simp [initial] at hinitial
  | load name =>
    cases second with
    | load other => rw [String.toList_inj.mp (List.append_cancel_left hshown)]
    | _ => simp [initial] at hinitial
  | operator symbol =>
    cases second with
    | operator other => rw [(List.cons.inj (List.append_cancel_left hshown)).1]
    | _ => simp [initial] at hinitial
  | function name =>
    cases second with
    | function other => rw [String.toList_inj.mp (List.append_cancel_left hshown)]
    | _ => simp [initial] at hinitial
  | negate =>
    cases second with
    | negate => rfl
    | _ => simp [initial] at hinitial

/-- An instruction holds what a token can write: a number, a name, or the mark of an operator. -/
def IsWritten : Instruction → Prop
  | number value => ¬value.isNaN
  | load name | function name => name.toList ∈ Lexicon.name
  | operator symbol => [symbol] ∈ Lexicon.mark
  | negate => True

/-- What such an instruction holds is written with the characters of words. -/
theorem IsWritten.isWordChar_contentText (h : instruction.IsWritten) :
    instruction.contentText.all isWordChar := by
  cases instruction with
  | number value => exact Number.isWordChar_plain value
  | load name | function name => exact isWordChar_of_mem_lexeme (.inl (.inr h))
  | operator symbol => exact isWordChar_of_mem_lexeme (.inr h)
  | negate => rfl

/-- There is no blank in the text of such an instruction. -/
theorem IsWritten.not_mem_text (h : instruction.IsWritten) : ' ' ∉ instruction.text.toList := by
  have hkind : ' ' ∉ instruction.kindText := by cases instruction <;> simp [kindText]
  have hcontent := not_mem_of_all h.isWordChar_contentText (by decide : isWordChar ' ' = false)
  rw [toList_text, List.mem_append, List.mem_append, not_or, not_or]
  exact ⟨⟨hkind, hcontent⟩, by decide⟩

end Instruction

/-! ### Where instructions come from -/

namespace Place

variable {place : Place} {placed : PlacedToken} {tokens : List PlacedToken}
  {instruction : Instruction}

/-- A token that is written by a word stands for an instruction that holds what is written. -/
theorem isWritten_of_role {after : List PlacedToken} {word : List Char}
    (hspells : Token.Spells word placed.token)
    (h : (place.role placed after).instruction? = some instruction) : instruction.IsWritten := by
  obtain ⟨token, position⟩ := placed
  cases hspells with
  | number hword hvalue =>
    have hnumber := Number.not_isNaN_of_mem_numeral hword hvalue
    obtain rfl := Option.some.inj h
    change ¬Float.isNaN (if place = .folded then _ else _)
    split
    · exact Number.not_isNaN_neg hnumber
    · exact hnumber
  | name hword =>
    have hname : (String.ofList word).toList ∈ Lexicon.name := by rwa [String.toList_ofList]
    unfold role at h
    dsimp only at h
    split at h <;>
    · obtain rfl := Option.some.inj h
      exact hname
  | mark sign =>
    unfold role at h
    dsimp only at h
    split at h
    · cases h
    · split at h
      · cases h
      · split at h
        · obtain rfl := Option.some.inj h
          trivial
        · obtain rfl := Option.some.inj h
          exact mem_mark_iff.mpr ⟨sign, rfl⟩

/-- The instructions that tokens stand for hold what is written. -/
theorem isWritten_of_mem_roles (hspells : ∀ placed ∈ tokens, ∃ word, Token.Spells word placed.token)
    (h : instruction ∈ (place.roles tokens).filterMap Role.instruction?) :
    instruction.IsWritten := by
  induction tokens generalizing place with
  | nil => cases h
  | cons placed after ih =>
    obtain ⟨⟨word, hword⟩, hafter⟩ := List.forall_mem_cons.mp hspells
    obtain ⟨role, hrole, hinstruction⟩ := List.mem_filterMap.mp h
    rcases List.mem_cons.mp hrole with rfl | hlater
    · exact isWritten_of_role hword hinstruction
    · exact ih hafter (List.mem_filterMap.mpr ⟨role, hlater, hinstruction⟩)

end Place

namespace Program

variable {vocabulary vocabulary' : Vocabulary} {text text' : String} {program program' : Program}

/-- The instructions of the program of a text hold what is written in the text. -/
theorem isWritten_of_ofText (h : ofText vocabulary text = .ok program) :
    ∀ instruction ∈ program.instructions, instruction.IsWritten := by
  intro instruction hinstruction
  obtain ⟨phrase, htokens, -, -, hemission⟩ := ofText_eq_ok_iff.mp h
  have hroles := phrase.roles_tokens rfl .nil
  rw [List.append_nil, Place.roles, List.append_nil] at hroles
  rw [← hemission, ← phrase.reorders.perm.mem_iff, ← hroles] at hinstruction
  exact Place.isWritten_of_mem_roles (Token.ofText_eq_ok_iff_tiles.mp htokens).exists_spells
    hinstruction

/-! ### The text of a program -/

/-- Without instructions there is no value, so no text has a program without any. -/
theorem instructions_ne_nil_of_ofText (h : ofText vocabulary text = .ok program) :
    program.instructions ≠ [] := by
  intro hnil
  have hpostfix := postfix_of_ofText h
  rw [hnil] at hpostfix
  generalize hblock : ([] : List Instruction) = block at hpostfix
  cases hpostfix <;> simp at hblock

/-- The text of a program falls apart at its blanks into the texts of the instructions. -/
theorem splitOn_text (hsome : program.instructions ≠ [])
    (h : ∀ instruction ∈ program.instructions, instruction.IsWritten) :
    program.text.toList.splitOn ' ' =
      program.instructions.map fun instruction ↦ instruction.text.toList := by
  have htext : program.text.toList =
      [' '].intercalate (program.instructions.map fun instruction ↦ instruction.text.toList) := by
    rw [Program.text, String.toList_intercalate, List.map_map]
    rfl
  rw [htext]
  refine List.splitOn_intercalate ' ' ?_ (mt List.map_eq_nil_iff.mp hsome)
  intro piece hpiece
  obtain ⟨instruction, hinstruction, rfl⟩ := List.mem_map.mp hpiece
  exact (h instruction hinstruction).not_mem_text

/-- A name that is none can look like two instructions. -/
example : Program.text ⟨[.load "a> <ident:b"]⟩ = Program.text ⟨[.load "a", .load "b"]⟩ := by
  decide

/-- Two texts have the same program if the texts of their programs are the same, whatever the
vocabularies are. The numbers are the same bit for bit: none of them is NaN. -/
theorem eq_of_text_eq (hfirst : ofText vocabulary text = .ok program)
    (hsecond : ofText vocabulary' text' = .ok program') (h : program.text = program'.text) :
    program = program' ∧ ∀ value, .number value ∈ program.instructions → ¬value.isNaN := by
  have hwritten := isWritten_of_ofText hfirst
  have hpieces := splitOn_text (instructions_ne_nil_of_ofText hfirst) hwritten
  rw [h, splitOn_text (instructions_ne_nil_of_ofText hsecond) (isWritten_of_ofText hsecond)]
    at hpieces
  have hinjective : Function.Injective fun instruction : Instruction ↦ instruction.text.toList :=
    fun _ _ h ↦ Instruction.text_injective (String.toList_inj.mp h)
  refine ⟨?_, fun value hvalue ↦ hwritten _ hvalue⟩
  rw [Program.mk.injEq]
  exact (List.map_injective_iff.mpr hinjective hpieces).symm

/-- Both numerals are beyond the largest finite number. -/
theorem eq_of_text_eq_infinite :
    ∃ program program', ofText .standard "2e400-f(x)" = .ok program ∧
      ofText (Vocabulary.standard.addConstant "x" 1) "(3e999) - (f(x))" = .ok program' ∧
      program.text = "<number:inf> <ident:x> <function:f> <operator:->" ∧
      program'.text = "<number:inf> <ident:x> <function:f> <operator:->" ∧ program = program' ∧
      ∀ value, .number value ∈ program.instructions → ¬value.isNaN := by
  have hfirst : ofText .standard "2e400-f(x)" =
      .ok ⟨[.number (1 / 0), .load "x", .function "f", .operator '-']⟩ := by decide +kernel
  have hsecond : ofText (Vocabulary.standard.addConstant "x" 1) "(3e999) - (f(x))" =
      .ok ⟨[.number (2 / 0), .load "x", .function "f", .operator '-']⟩ := by decide +kernel
  have hshown : Program.text ⟨[.number (1 / 0), .load "x", .function "f", .operator '-']⟩ =
      "<number:inf> <ident:x> <function:f> <operator:->" := by decide +kernel
  have hshown' : Program.text ⟨[.number (2 / 0), .load "x", .function "f", .operator '-']⟩ =
      "<number:inf> <ident:x> <function:f> <operator:->" := by decide +kernel
  exact ⟨_, _, hfirst, hsecond, hshown, hshown',
    eq_of_text_eq hfirst hsecond (hshown.trans hshown'.symm)⟩

end Program

end BeamCalc
