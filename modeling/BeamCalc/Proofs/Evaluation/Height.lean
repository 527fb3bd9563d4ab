import BeamCalc.Proofs.Evaluation.Postfix
import Mathlib.Data.List.Induction

/-!
# The height of the stack

A stack has a height after every instruction, unless one of them takes more operands than there are
(`Vocabulary.heightAfter`). Instructions that start from an empty stack leave as many values as
there are expressions in postfix order one after the other (`exists_blocks_of_heightAfter`). So they
are one such expression exactly if they leave one value and never take what they did not put there
(`postfix_iff_heightAfter`); on any other stack they leave one value more
(`Postfix.heightAfter_eq`).
-/

set_option autoImplicit false
set_option relaxedAutoImplicit false

namespace BeamCalc

variable {vocabulary : Vocabulary} {block : List Instruction} {height : Nat}

/-- The height of a stack after instructions, if none of them takes more operands than there are. -/
def Vocabulary.heightAfter (vocabulary : Vocabulary) (height : Nat) :
    List Instruction → Option Nat
  | [] => some height
  | instruction :: others =>
    if vocabulary.operands instruction ≤ height then
      vocabulary.heightAfter (height - vocabulary.operands instruction + 1) others
    else none

namespace Vocabulary

theorem heightAfter_append (height : Nat) (first second : List Instruction) :
    vocabulary.heightAfter height (first ++ second) =
      (vocabulary.heightAfter height first).bind (vocabulary.heightAfter · second) := by
  induction first generalizing height with
  | nil => rfl
  | cons instruction others ih =>
    rw [List.cons_append, heightAfter, heightAfter]
    split
    · exact ih _
    · rfl

/-- One instruction takes its operands and puts one value. -/
theorem heightAfter_singleton {instruction : Instruction}
    (h : vocabulary.operands instruction ≤ height) :
    vocabulary.heightAfter height [instruction] =
      some (height - vocabulary.operands instruction + 1) := by
  rw [heightAfter, if_pos h, heightAfter]

theorem heightAfter_concat_eq_some_iff {instruction : Instruction} {before : Nat} :
    vocabulary.heightAfter before (block ++ [instruction]) = some height ↔
      ∃ middle, vocabulary.heightAfter before block = some middle ∧
        vocabulary.operands instruction ≤ middle ∧
        middle - vocabulary.operands instruction + 1 = height := by
  rw [heightAfter_append, Option.bind_eq_some_iff]
  refine exists_congr fun middle ↦ and_congr_right fun _ ↦ ?_
  rw [heightAfter]
  split
  · rename_i henough
    simp [heightAfter, henough]
  · rename_i hfew
    simp [hfew]

end Vocabulary

/-- An expression in postfix order leaves one value more than there were. -/
theorem Postfix.heightAfter_eq (h : Postfix vocabulary block) (height : Nat) :
    vocabulary.heightAfter height block = some (height + 1) := by
  induction h generalizing height with
  | @operand instruction hoperands =>
    rw [Vocabulary.heightAfter_singleton (by omega), hoperands, Nat.sub_zero]
  | @unary block instruction hoperands hblock ih =>
    rw [Vocabulary.heightAfter_append, ih, Option.bind_some,
      Vocabulary.heightAfter_singleton (by omega), hoperands, Nat.add_sub_cancel]
  | @binary left right instruction hoperands hleft hright ihleft ihright =>
    rw [Vocabulary.heightAfter_append, ihleft, Option.bind_some, Vocabulary.heightAfter_append,
      ihright, Option.bind_some, Vocabulary.heightAfter_singleton (by omega), hoperands]
    rfl

/-- Instructions that find their operands on an initially empty stack are expressions in postfix
order, one for each value that is left. The last instruction joins the last of them. -/
theorem exists_blocks_of_heightAfter (h : vocabulary.heightAfter 0 block = some height) :
    ∃ blocks : List (List Instruction), blocks.flatten = block ∧ blocks.length = height ∧
      ∀ block ∈ blocks, Postfix vocabulary block := by
  induction block using List.reverseRecOn generalizing height with
  | nil => exact ⟨[], rfl, Option.some.inj h, fun _ hblock ↦ absurd hblock List.not_mem_nil⟩
  | append_singleton block instruction ih =>
    obtain ⟨middle, hmiddle, henough, rfl⟩ := Vocabulary.heightAfter_concat_eq_some_iff.mp h
    obtain ⟨blocks, rfl, rfl, hblocks⟩ := ih hmiddle
    obtain ⟨front, hfront⟩ :
        ∃ front, front = blocks.length - vocabulary.operands instruction := ⟨_, rfl⟩
    have hlast : (blocks.drop front).length = vocabulary.operands instruction := by
      rw [List.length_drop]
      omega
    refine ⟨blocks.take front ++ [(blocks.drop front).flatten ++ [instruction]], ?_, ?_, ?_⟩
    · rw [List.flatten_append, List.flatten_singleton, ← List.append_assoc, ← List.flatten_append,
        List.take_append_drop]
    · rw [List.length_append, List.length_take, List.length_singleton]
      omega
    · intro block hblock
      rcases List.mem_append.mp hblock with hearlier | hjoined
      · exact hblocks block (List.mem_of_mem_take hearlier)
      · rw [List.mem_singleton.mp hjoined]
        exact .join hlast fun block hblock ↦ hblocks block (List.mem_of_mem_drop hblock)

/-- Instructions are one expression in postfix order exactly if they leave one value on an empty
stack and find all their operands there. -/
theorem postfix_iff_heightAfter :
    Postfix vocabulary block ↔ vocabulary.heightAfter 0 block = some 1 := by
  refine ⟨fun h ↦ h.heightAfter_eq 0, fun h ↦ ?_⟩
  obtain ⟨blocks, rfl, hlength, hblocks⟩ := exists_blocks_of_heightAfter h
  obtain ⟨block, rfl⟩ := List.length_eq_one_iff.mp hlength
  rw [List.flatten_singleton]
  exact hblocks block List.mem_cons_self

end BeamCalc
