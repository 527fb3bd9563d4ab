import BeamCalc.Vocabulary

/-!
# Vocabularies that are built by definitions

A vocabulary is built from the standard one by definitions, each of which gives one name a meaning.
`IsConsistent` is what every definition preserves and what `IsBuilt.isConsistent` therefore says of
all vocabularies that are built in this way: a function has one number of arguments, and the
operators are the standard ones. So a name that is called with two arguments is a function of two
arguments and no other (`IsConsistent.of_arity_eq_two`).
-/

set_option autoImplicit false
set_option relaxedAutoImplicit false

namespace BeamCalc

namespace Table

variable {key meaning : Type} [DecidableEq key]

/-- A list of entries says nothing about the keys that it does not have. -/
theorem ofList_eq_none {entries : List (key × meaning)} {wanted : key}
    (h : wanted ∉ entries.map Prod.fst) : ofList entries wanted = none := by
  rw [ofList, Option.map_eq_none_iff, List.find?_eq_none]
  intro entry hentry hwanted
  have hkey : entry.1 = wanted := of_decide_eq_true hwanted
  exact h (hkey ▸ List.mem_map_of_mem hentry)

end Table

namespace Vocabulary

/-- What gives a name a meaning. -/
inductive Definition where
  | constant (name : String) (value : Float)
  | unary (name : String) (meaning : Float → Float)
  | binary (name : String) (meaning : Float → Float → Float)

/-- The vocabulary after a definition. -/
def define (vocabulary : Vocabulary) : Definition → Vocabulary
  | .constant name value => vocabulary.addConstant name value
  | .unary name meaning => vocabulary.addUnary name meaning
  | .binary name meaning => vocabulary.addBinary name meaning

/-- The vocabulary after several definitions, the first of the list first. -/
def defineAll (vocabulary : Vocabulary) (definitions : List Definition) : Vocabulary :=
  definitions.foldl define vocabulary

/-- A vocabulary in which no name is a function of one argument and of two, with the standard
operators. -/
structure IsConsistent (vocabulary : Vocabulary) : Prop where
  apart : ∀ name, vocabulary.unary name = none ∨ vocabulary.binary name = none
  operator_eq : vocabulary.operator = standard.operator

theorem isConsistent_standard : standard.IsConsistent where
  apart name := by
    by_cases hbinary : name ∈ standardBinary.map Prod.fst
    · left
      apply Table.ofList_eq_none
      intro hunary
      revert hunary
      have hname : name = "max" ∨ name = "min" := by
        simpa [standardBinary] using hbinary
      rcases hname with rfl | rfl <;> decide
    · exact Or.inr (Table.ofList_eq_none hbinary)
  operator_eq := rfl

variable {vocabulary : Vocabulary}

theorem IsConsistent.addConstant (h : vocabulary.IsConsistent) (name : String) (value : Float) :
    (vocabulary.addConstant name value).IsConsistent :=
  ⟨h.apart, h.operator_eq⟩

/-- The new function is none of two arguments, all others are as before. -/
theorem IsConsistent.addUnary (h : vocabulary.IsConsistent) (name : String)
    (meaning : Float → Float) : (vocabulary.addUnary name meaning).IsConsistent where
  apart other := by
    by_cases hname : other = name
    · right
      rw [hname]
      exact Table.set_same _ _ _
    · have hother := h.apart other
      simpa [Vocabulary.addUnary, hname] using hother
  operator_eq := h.operator_eq

/-- The new function is none of one argument, all others are as before. -/
theorem IsConsistent.addBinary (h : vocabulary.IsConsistent) (name : String)
    (meaning : Float → Float → Float) : (vocabulary.addBinary name meaning).IsConsistent where
  apart other := by
    by_cases hname : other = name
    · left
      rw [hname]
      exact Table.set_same _ _ _
    · have hother := h.apart other
      simpa [Vocabulary.addBinary, hname] using hother
  operator_eq := h.operator_eq

theorem IsConsistent.define (h : vocabulary.IsConsistent) (definition : Definition) :
    (vocabulary.define definition).IsConsistent := by
  cases definition with
  | constant name value => exact h.addConstant name value
  | unary name meaning => exact h.addUnary name meaning
  | binary name meaning => exact h.addBinary name meaning

theorem IsConsistent.defineAll (h : vocabulary.IsConsistent) (definitions : List Definition) :
    (vocabulary.defineAll definitions).IsConsistent := by
  induction definitions generalizing vocabulary with
  | nil => exact h
  | cons first others ih => exact ih (h.define first)

/-- A vocabulary that is built from the standard one. -/
def IsBuilt (vocabulary : Vocabulary) : Prop :=
  ∃ definitions, standard.defineAll definitions = vocabulary

/-- Every vocabulary that is built from the standard one is consistent. -/
theorem IsBuilt.isConsistent (h : vocabulary.IsBuilt) : vocabulary.IsConsistent := by
  obtain ⟨definitions, rfl⟩ := h
  exact isConsistent_standard.defineAll definitions

/-- A call has one argument or two. -/
theorem arity_eq_one_or_two (vocabulary : Vocabulary) (name : String) :
    vocabulary.arity name = 1 ∨ vocabulary.arity name = 2 := by
  unfold arity
  split
  · exact Or.inr rfl
  · exact Or.inl rfl

/-- A name that is called with two arguments is a function of two arguments and no other. -/
theorem IsConsistent.of_arity_eq_two (h : vocabulary.IsConsistent) {name : String}
    (harity : vocabulary.arity name = 2) :
    vocabulary.unary name = none ∧ ∃ meaning, vocabulary.binary name = some meaning := by
  by_cases hbinary : vocabulary.isBinary name
  · obtain ⟨meaning, hmeaning⟩ := Option.isSome_iff_exists.mp hbinary
    have hapart := h.apart name
    rw [hmeaning] at hapart
    exact ⟨hapart.resolve_right (Option.some_ne_none meaning), meaning, hmeaning⟩
  · rw [arity, if_neg hbinary] at harity
    cases harity

/-- A name that is called with one argument is no function of two arguments. -/
theorem binary_eq_none_of_arity_eq_one {name : String} (harity : vocabulary.arity name = 1) :
    vocabulary.binary name = none := by
  by_cases hbinary : vocabulary.isBinary name
  · rw [arity, if_pos hbinary] at harity
    cases harity
  · exact Option.not_isSome_iff_eq_none.mp hbinary

end Vocabulary

end BeamCalc
