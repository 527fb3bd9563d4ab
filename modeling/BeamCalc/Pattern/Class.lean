import BeamCalc.Pattern.Escape
import BeamCalc.Pattern.Nesting

/-!
# Classes of a pattern

A class in square brackets lists characters, ranges and other classes, and may join them by
operators. `closeClass?` reads a class to its end; every step of it takes some of the text, which
`length_lt_of_closeClass?` says of the whole.
-/

set_option autoImplicit false
set_option relaxedAutoImplicit false

namespace BeamCalc.Pattern

/-- The names of ASCII classes. -/
def asciiClassNames : List String :=
  ["alnum", "alpha", "ascii", "blank", "cntrl", "digit", "graph", "lower", "print", "punct",
    "space", "upper", "word", "xdigit"]

/-- The text after the name of an ASCII class and the marks that end it. -/
def afterClassName? (text : List Char) : Option (List Char) := do
  let (name, rest) ← Text.cut? ":]".toList text
  if asciiClassNames.contains (String.ofList name) then some rest else none

/-- The text after an ASCII class such as `[:alpha:]`, given from its colon on, and whether the
class is negated. -/
def asciiClass? : (text : List Char) → Option (Bool × List Char)
  | ':' :: '^' :: rest => (afterClassName? rest).map fun rest ↦ (true, rest)
  | ':' :: rest => (afterClassName? rest).map fun rest ↦ (false, rest)
  | _ => none

/-- The text after the bracket that opens a class and the negation of the class. The negation of
a class of bytes has members that are no characters, so there is none. -/
def openClass? (modes : Modes) (text : List Char) : Option (List Char) :=
  match modes.skip text with
  | '^' :: rest => if modes.unicode then some rest else none
  | rest => some rest

/-- The atom at the beginning of a text inside a class. -/
def classAtom? (modes : Modes) : (text : List Char) → Option (Atom × List Char)
  | [] => none
  | '\\' :: rest => escape? modes rest
  | character :: rest => some (.literal character, rest)

/-- The text after the member of a class, which is an atom or a range. A minus before another one
or before the end of the class makes no range. -/
def afterMember? (modes : Modes) (text : List Char) : Option (List Char) := do
  let (low, rest) ← classAtom? modes text
  match modes.skip rest with
  | '-' :: more =>
    if modes.glance more = some ']' ∨ modes.glance more = some '-' then
      if low.isMember modes then some ('-' :: more) else none
    else
      let (high, rest) ← classAtom? modes (modes.skip more)
      if low.areEnds modes high then some rest else none
  | rest => if low.isMember modes then some rest else none

/-- What has been read of a class: nothing, only minus signs, or a member. -/
inductive Progress where
  | none
  | dashes
  | members
  deriving Repr, DecidableEq

/-- A class while it is read: its members since the last operator, and the depth of what stands
before the operator. -/
structure Bracket where
  progress : Progress := .none
  members : Row := {}
  left : Option Nat := none
  deriving Repr, DecidableEq

namespace Bracket

/-- The depth of what is inside a bracket. -/
def depth (bracket : Bracket) : Nat :=
  match bracket.left with
  | none => bracket.members.depth
  | some left => max left bracket.members.depth + 1

/-- A bracket with one more member. -/
def add (bracket : Bracket) (progress : Progress) (depth : Nat) : Bracket :=
  { bracket with progress, members := bracket.members.add depth }

/-- A bracket after an operator. -/
def join (bracket : Bracket) : Bracket :=
  { progress := .members, left := some bracket.depth }

end Bracket

/-- What the next characters inside a class are. -/
inductive ClassStep where
  /-- A part of the class, after which it goes on. -/
  | go (bracket : Bracket) (rest : List Char)
  /-- The beginning of a class inside the class. -/
  | nest (rest : List Char)
  /-- The end of the class. -/
  | close (rest : List Char)

/-- The text after a step. -/
def ClassStep.rest : ClassStep → List Char
  | go _ rest => rest
  | nest rest => rest
  | close rest => rest

/-- The step of a member that is no class in brackets. -/
def memberStep? (modes : Modes) (bracket : Bracket) (progress : Progress) (rest : List Char) :
    Option ClassStep :=
  if modes.needsCases then none else some (.go (bracket.add progress 0) rest)

/-- The next step inside a class. Minus signs at its beginning stand for themselves, and so does a
closing bracket there. -/
def classStep? (modes : Modes) (bracket : Bracket) (first : Char) (rest : List Char) :
    Option ClassStep :=
  if first = '-' ∧ bracket.progress ≠ .members then memberStep? modes bracket .dashes rest
  else if first = ']' then
    if bracket.progress = .none then memberStep? modes bracket .members rest
    else some (.close rest)
  else if first = '[' then
    match asciiClass? rest with
    | some (negated, rest) =>
      if negated && !modes.unicode then none else memberStep? modes bracket .members rest
    | none => (openClass? modes rest).map .nest
  else if "&-~".toList.contains first ∧ rest.head? = some first then
    some (.go bracket.join rest.tail)
  else (afterMember? modes (first :: rest)).bind (memberStep? modes bracket .members)

theorem length_le_of_afterClassName? {text rest : List Char}
    (h : afterClassName? text = some rest) : rest.length ≤ text.length := by
  obtain ⟨⟨name, left⟩, found, h⟩ := Option.bind_eq_some_iff.mp h
  dsimp only at h
  split at h
  · obtain rfl := Option.some.inj h
    rw [← Text.append_of_cut? found]
    simp only [List.length_append]
    omega
  · simp at h

theorem length_lt_of_asciiClass? {text rest : List Char} {negated : Bool}
    (h : asciiClass? text = some (negated, rest)) : rest.length < text.length := by
  unfold asciiClass? at h
  split at h
  · obtain ⟨_, found, h⟩ := Option.map_eq_some_iff.mp h
    have := length_le_of_afterClassName? found
    simp only [Prod.mk.injEq] at h
    obtain ⟨-, rfl⟩ := h
    simp only [List.length_cons]
    omega
  · obtain ⟨_, found, h⟩ := Option.map_eq_some_iff.mp h
    have := length_le_of_afterClassName? found
    simp only [Prod.mk.injEq] at h
    obtain ⟨-, rfl⟩ := h
    simp only [List.length_cons]
    omega
  · simp at h

theorem length_le_of_openClass? {modes : Modes} {text rest : List Char}
    (h : openClass? modes text = some rest) : rest.length ≤ text.length := by
  have shorter := modes.length_skip_le text
  unfold openClass? at h
  split at h
  · rename_i skipped
    split at h
    · obtain rfl := Option.some.inj h
      simp only [skipped, List.length_cons] at shorter
      omega
    · simp at h
  · obtain rfl := Option.some.inj h
    exact shorter

theorem length_lt_of_classAtom? {modes : Modes} {atom : Atom} {text rest : List Char}
    (h : classAtom? modes text = some (atom, rest)) : rest.length < text.length := by
  unfold classAtom? at h
  split at h
  · simp at h
  · exact Nat.lt_succ_of_lt (length_lt_of_escape? h)
  · simp only [Option.some.injEq, Prod.mk.injEq] at h
    obtain ⟨-, rfl⟩ := h
    exact Nat.lt_succ_self _

theorem length_lt_of_afterMember? {modes : Modes} {text rest : List Char}
    (h : afterMember? modes text = some rest) : rest.length < text.length := by
  obtain ⟨⟨low, left⟩, found, h⟩ := Option.bind_eq_some_iff.mp h
  have taken := length_lt_of_classAtom? found
  have shorter := modes.length_skip_le left
  dsimp only at h
  split at h
  · rename_i more skipped
    rw [skipped] at shorter
    split at h
    · split at h
      · obtain rfl := Option.some.inj h
        omega
      · simp at h
    · obtain ⟨⟨high, last⟩, found, h⟩ := Option.bind_eq_some_iff.mp h
      have more_taken := length_lt_of_classAtom? found
      have more_shorter := modes.length_skip_le more
      dsimp only at h
      split at h
      · obtain rfl := Option.some.inj h
        simp only [List.length_cons] at shorter
        omega
      · simp at h
  · split at h
    · obtain rfl := Option.some.inj h
      omega
    · simp at h

theorem rest_of_memberStep? {modes : Modes} {bracket : Bracket} {progress : Progress}
    {rest : List Char} {step : ClassStep}
    (h : memberStep? modes bracket progress rest = some step) : step.rest = rest := by
  unfold memberStep? at h
  split at h
  · simp at h
  · obtain rfl := Option.some.inj h
    rfl

/-- A step takes the first character and maybe more. -/
theorem length_le_of_classStep? {modes : Modes} {bracket : Bracket} {first : Char}
    {rest : List Char} {step : ClassStep} (h : classStep? modes bracket first rest = some step) :
    step.rest.length ≤ rest.length := by
  unfold classStep? at h
  split at h
  · exact Nat.le_of_eq (by rw [rest_of_memberStep? h])
  · split at h
    · split at h
      · exact Nat.le_of_eq (by rw [rest_of_memberStep? h])
      · obtain rfl := Option.some.inj h
        exact Nat.le_refl _
    · split at h
      · split at h
        · rename_i found
          split at h
          · simp at h
          · rw [rest_of_memberStep? h]
            exact Nat.le_of_lt (length_lt_of_asciiClass? found)
        · obtain ⟨_, found, rfl⟩ := Option.map_eq_some_iff.mp h
          exact length_le_of_openClass? found
      · split at h
        · obtain rfl := Option.some.inj h
          simp [ClassStep.rest]
        · obtain ⟨_, found, h⟩ := Option.bind_eq_some_iff.mp h
          rw [rest_of_memberStep? h]
          exact Nat.le_of_lt_succ (length_lt_of_afterMember? found)

theorem length_rest_lt_of_classStep? {modes : Modes} {bracket : Bracket} {first : Char}
    {text rest : List Char} {step : ClassStep} (skipped : modes.skip text = first :: rest)
    (h : classStep? modes bracket first rest = some step) :
    step.rest.length < text.length := by
  have shorter := modes.length_skip_le text
  rw [skipped] at shorter
  exact Nat.lt_of_lt_of_le (Nat.lt_succ_of_le (length_le_of_classStep? h)) shorter

/-- The depth of a class that has been read up to `text`, inside the classes `outer`, and the text
after the outermost of them. -/
def closeClass? (modes : Modes) (outer : List Bracket) (bracket : Bracket) (text : List Char) :
    Option (Nat × List Char) :=
  match _skipped : modes.skip text with
  | [] => none
  | first :: rest =>
    match _step : classStep? modes bracket first rest with
    | none => none
    | some (.go bracket rest) => closeClass? modes outer bracket rest
    | some (.nest rest) => closeClass? modes (bracket :: outer) {} rest
    | some (.close rest) =>
      let depth := bracket.depth + 1
      match outer with
      | [] => some (depth, rest)
      | around :: outer => closeClass? modes outer (around.add .members depth) rest
termination_by text.length
decreasing_by
  all_goals exact length_rest_lt_of_classStep? _skipped _step

/-- Reading a class to its end takes some of the text. -/
theorem length_lt_of_closeClass? {modes : Modes} {outer : List Bracket} {bracket : Bracket}
    {depth : Nat} {text rest : List Char}
    (h : closeClass? modes outer bracket text = some (depth, rest)) :
    rest.length < text.length := by
  fun_induction closeClass? modes outer bracket text with
  | case1 => simp at h
  | case2 => simp at h
  | case3 _ _ _ _ _ skipped _ _ step ih =>
    exact Nat.lt_trans (ih h) (length_rest_lt_of_classStep? skipped step)
  | case4 _ _ _ _ _ skipped _ step ih =>
    exact Nat.lt_trans (ih h) (length_rest_lt_of_classStep? skipped step)
  | case5 _ _ _ _ skipped _ step =>
    simp only [Option.some.injEq, Prod.mk.injEq] at h
    obtain ⟨-, rfl⟩ := h
    exact length_rest_lt_of_classStep? skipped step
  | case6 _ _ _ _ skipped _ step _ _ _ ih =>
    exact Nat.lt_trans (ih h) (length_rest_lt_of_classStep? skipped step)

end BeamCalc.Pattern
