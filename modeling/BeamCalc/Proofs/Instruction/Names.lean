import BeamCalc.Instruction
import Mathlib.Data.List.Induction
import Mathlib.Data.List.Nodup

/-!
# The names of a program

The names of a program are those that its instructions read, each once, in the order in which they
first occur (`Program.firstOccurrences_names`). So a name is one of them exactly if an instruction
loads it (`Program.mem_names_iff`).
-/

set_option autoImplicit false
set_option relaxedAutoImplicit false

namespace BeamCalc

/-- The entries of a list, each once, in the order in which they first occur. -/
structure FirstOccurrences (all distinct : List String) : Prop where
  nodup : distinct.Nodup
  mem_iff : ∀ name, name ∈ distinct ↔ name ∈ all
  ordered : distinct.Pairwise fun first second ↦ all.idxOf first < all.idxOf second

namespace FirstOccurrences

variable {all distinct : List String} {name : String}

/-- A further entry that is known changes nothing. -/
theorem known (h : FirstOccurrences all distinct) (hname : name ∈ distinct) :
    FirstOccurrences (all ++ [name]) distinct where
  nodup := h.nodup
  mem_iff other := by
    rw [h.mem_iff, List.mem_append, List.mem_singleton, or_iff_left_of_imp]
    rintro rfl
    exact (h.mem_iff other).mp hname
  ordered := h.ordered.imp_of_mem fun {first second} hfirst hsecond hless ↦ by
    rwa [List.idxOf_append_of_mem ((h.mem_iff first).mp hfirst),
      List.idxOf_append_of_mem ((h.mem_iff second).mp hsecond)]

/-- A further entry that is new comes last. -/
theorem new (h : FirstOccurrences all distinct) (hname : name ∉ distinct) :
    FirstOccurrences (all ++ [name]) (distinct ++ [name]) where
  nodup := h.nodup.append (List.nodup_singleton name) (List.disjoint_singleton.mpr hname)
  mem_iff other := by
    rw [List.mem_append, List.mem_append, h.mem_iff]
  ordered := by
    have hnew : name ∉ all := fun hall ↦ hname ((h.mem_iff name).mpr hall)
    rw [List.pairwise_append]
    refine ⟨?_, List.pairwise_singleton _ _, ?_⟩
    · exact h.ordered.imp_of_mem fun {first second} hfirst hsecond hless ↦ by
        rwa [List.idxOf_append_of_mem ((h.mem_iff first).mp hfirst),
          List.idxOf_append_of_mem ((h.mem_iff second).mp hsecond)]
    · intro first hfirst last hlast
      obtain rfl := List.mem_singleton.mp hlast
      have hall := (h.mem_iff first).mp hfirst
      rw [List.idxOf_append_of_mem hall, List.idxOf_append_of_notMem hnew]
      have hindex := List.idxOf_lt_length_of_mem hall
      omega

end FirstOccurrences

namespace Program

/-- The names of a program are what it reads, each once. -/
theorem firstOccurrences_names (program : Program) :
    FirstOccurrences (program.instructions.filterMap Instruction.reads?) program.names := by
  unfold names
  induction program.instructions.filterMap Instruction.reads? using List.reverseRecOn with
  | nil => exact ⟨List.nodup_nil, fun _ ↦ Iff.rfl, List.Pairwise.nil⟩
  | append_singleton before name ih =>
    rw [List.foldl_append, List.foldl_cons, List.foldl_nil]
    split
    · rename_i hname
      exact ih.known hname
    · rename_i hname
      exact ih.new hname

/-- A name is one of a program exactly if an instruction loads it. -/
theorem mem_names_iff {program : Program} {name : String} :
    name ∈ program.names ↔ .load name ∈ program.instructions := by
  rw [program.firstOccurrences_names.mem_iff, List.mem_filterMap]
  constructor
  · rintro ⟨instruction, hinstruction, hreads⟩
    cases instruction with
    | load other =>
      cases hreads
      exact hinstruction
    | number | operator | function | negate => cases hreads
  · intro hload
    exact ⟨.load name, hload, rfl⟩

end Program

end BeamCalc
