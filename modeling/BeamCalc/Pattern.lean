import BeamCalc.Pattern.Class
import BeamCalc.Text.Alphanumeric

/-!
# Patterns

A pattern is a regular expression that goes without tables of the Unicode properties. The program
never matches one: it has to know only whether a text is a pattern. `isPattern` reads a text from
left to right, keeping what the characters so far mean for those to come, and how deep they are
nested; `isPattern_of_all_isAlphanum` says that a text of ASCII letters and digits is a pattern.
-/

set_option autoImplicit false
set_option relaxedAutoImplicit false

namespace BeamCalc.Pattern

/-- A group while it is read, or a pattern itself: the modes at this place, the depths of the
alternatives so far and of the items since the last of them, and whether an item precedes that can
be repeated. -/
structure Group where
  modes : Modes := {}
  alternatives : Row := {}
  items : Row := {}
  repeatable : Bool := false
  deriving Repr, DecidableEq

namespace Group

/-- A group with one more item. -/
def add (group : Group) (depth : Nat) : Group :=
  { group with items := group.items.add depth, repeatable := true }

/-- A group with its last item repeated. -/
def repeatLast (group : Group) : Group :=
  { group with items := group.items.repeatLast }

/-- A group at the beginning of another alternative. -/
def alternate (group : Group) : Group :=
  { group with
    alternatives := group.alternatives.add group.items.depth, items := {}, repeatable := false }

/-- A group in which other modes hold from here on. -/
def setModes (group : Group) (modes : Modes) : Group :=
  { group with modes, items := group.items.add 0, repeatable := false }

/-- The depth of what is inside a group. -/
def depth (group : Group) : Nat :=
  (group.alternatives.add group.items.depth).depth

end Group

/-- Where a pattern stands after what has been read: the innermost group, the groups around it, and
the names of groups. -/
structure Context where
  group : Group := {}
  outer : List Group := []
  names : List (List Char) := []
  deriving Repr, DecidableEq

namespace Context

/-- The modes that hold for what follows. -/
def modes (context : Context) : Modes :=
  context.group.modes

/-- The context after an item of single characters, and the text after it, provided that the item
is valid. -/
def item? (context : Context) (valid : Bool) (rest : List Char) : Option (Context × List Char) :=
  if valid then some ({ context with group := context.group.add 0 }, rest) else none

/-- The context at the beginning of a group with its own modes. -/
def enter (context : Context) (modes : Modes) : Context :=
  { context with group := { modes }, outer := context.group :: context.outer }

/-- The context after a group that ends, unless none is open. -/
def leave? (context : Context) : Option Context :=
  match context.outer with
  | [] => none
  | around :: outer =>
    some { context with group := around.add (context.group.depth + 1), outer }

/-- Whether a pattern may end here. -/
def isComplete (context : Context) : Bool :=
  context.outer.isEmpty && context.group.depth ≤ nestingLimit

end Context

/-- Whether a text can name a group. -/
def isGroupName : (text : List Char) → Bool
  | [] => false
  | first :: rest =>
    (first == '_' || Text.isAlphabetic first)
      && rest.all fun character ↦
        "_.[]".toList.contains character || Text.isAlphanumeric character

/-- The context inside a group with a name, and the text after the name. -/
def nameGroup? (context : Context) (text : List Char) : Option (Context × List Char) := do
  let (name, rest) ← Text.cut? ['>'] text
  if isGroupName name && !context.names.contains name then
    some ({ context.enter context.modes with names := name :: context.names }, rest)
  else none

/-- The characters before the mark that ends flags. -/
def isInFlags (character : Char) : Bool :=
  character != ':' && character != ')'

/-- The context after flags, and the text after them. They hold inside a group, or from where they
stand alone to the end of the group around them. -/
def setFlags? (context : Context) (text : List Char) : Option (Context × List Char) :=
  let flags := text.takeWhile isInFlags
  let modes := context.modes.change flags
  if areFlags flags then
    match text.dropWhile isInFlags with
    | ':' :: rest => some (context.enter modes, rest)
    | ')' :: rest =>
      if flags.isEmpty then none
      else some ({ context with group := context.group.setModes modes }, rest)
    | _ => none
  else none

/-- The context inside a group, and the text after its beginning, given from the bracket on. -/
def openGroup? (context : Context) (text : List Char) : Option (Context × List Char) :=
  match context.modes.skip text with
  | '?' :: 'P' :: '<' :: rest => nameGroup? context rest
  | '?' :: '<' :: rest => nameGroup? context rest
  | '?' :: rest => setFlags? context rest
  | rest => some (context.enter context.modes, rest)

/-- The context after the last item is repeated, and the text after the mark of the repetition. A
question mark that follows at once belongs to it. -/
def repeatLast? (context : Context) (rest : List Char) : Option (Context × List Char) :=
  if context.group.repeatable then
    let rest := (Text.after? ['?'] rest).getD rest
    some ({ context with group := context.group.repeatLast }, rest)
  else none

/-- The context after the part of a pattern that begins with `first`, and the text after it. -/
def step? (context : Context) (first : Char) (rest : List Char) : Option (Context × List Char) :=
  let modes := context.modes
  match first with
  | '(' => openGroup? context rest
  | ')' => context.leave?.map fun context ↦ (context, rest)
  | '|' => some ({ context with group := context.group.alternate }, rest)
  | '*' | '+' | '?' => repeatLast? context rest
  | '{' => none
  | '^' | '$' => context.item? true rest
  | '.' => context.item? modes.unicode rest
  | '[' => do
    let inside ← openClass? modes rest
    let (depth, rest) ← closeClass? modes [] {} inside
    return ({ context with group := context.group.add depth }, rest)
  | '\\' => do
    let (atom, rest) ← escape? modes rest
    context.item? (!(atom.isLiteral && modes.needsCases)) rest
  | _ => context.item? (!modes.needsCases) rest

theorem Context.eq_of_item? {context next : Context} {valid : Bool} {rest left : List Char}
    (h : context.item? valid rest = some (next, left)) : left = rest := by
  unfold item? at h
  split at h
  · simp only [Option.some.injEq, Prod.mk.injEq] at h
    exact h.2.symm
  · simp at h

theorem length_le_of_nameGroup? {context next : Context} {text rest : List Char}
    (h : nameGroup? context text = some (next, rest)) : rest.length ≤ text.length := by
  obtain ⟨⟨name, left⟩, found, h⟩ := Option.bind_eq_some_iff.mp h
  dsimp only at h
  split at h
  · simp only [Option.some.injEq, Prod.mk.injEq] at h
    obtain ⟨-, rfl⟩ := h
    rw [← Text.append_of_cut? found]
    simp only [List.length_append]
    omega
  · simp at h

theorem length_le_of_setFlags? {context next : Context} {text rest : List Char}
    (h : setFlags? context text = some (next, rest)) : rest.length ≤ text.length := by
  unfold setFlags? at h
  dsimp only at h
  have shorter : (text.dropWhile isInFlags).length ≤ text.length :=
    (List.dropWhile_suffix isInFlags).length_le
  split at h
  · split at h
    · rename_i found
      simp only [Option.some.injEq, Prod.mk.injEq] at h
      obtain ⟨-, rfl⟩ := h
      rw [found, List.length_cons] at shorter
      omega
    · rename_i found
      split at h
      · simp at h
      · simp only [Option.some.injEq, Prod.mk.injEq] at h
        obtain ⟨-, rfl⟩ := h
        rw [found, List.length_cons] at shorter
        omega
    · simp at h
  · simp at h

theorem length_le_of_openGroup? {context next : Context} {text rest : List Char}
    (h : openGroup? context text = some (next, rest)) : rest.length ≤ text.length := by
  have shorter := context.modes.length_skip_le text
  unfold openGroup? at h
  split at h
  · rename_i skipped
    have := length_le_of_nameGroup? h
    simp only [skipped, List.length_cons] at shorter
    omega
  · rename_i skipped
    have := length_le_of_nameGroup? h
    simp only [skipped, List.length_cons] at shorter
    omega
  · rename_i skipped
    have := length_le_of_setFlags? h
    simp only [skipped, List.length_cons] at shorter
    omega
  · simp only [Option.some.injEq, Prod.mk.injEq] at h
    obtain ⟨-, rfl⟩ := h
    exact shorter

theorem length_le_of_repeatLast? {context next : Context} {rest left : List Char}
    (h : repeatLast? context rest = some (next, left)) : left.length ≤ rest.length := by
  unfold repeatLast? at h
  split at h
  · simp only [Option.some.injEq, Prod.mk.injEq] at h
    obtain ⟨-, rfl⟩ := h
    cases found : Text.after? ['?'] rest with
    | none => exact Nat.le_refl _
    | some after =>
      rw [← Text.append_of_after? found]
      simp
  · simp at h

/-- A step takes the first character and maybe more. -/
theorem length_le_of_step? {context next : Context} {first : Char} {rest left : List Char}
    (h : step? context first rest = some (next, left)) : left.length ≤ rest.length := by
  unfold step? at h
  dsimp only at h
  split at h
  · exact length_le_of_openGroup? h
  · obtain ⟨_, -, h⟩ := Option.map_eq_some_iff.mp h
    simp only [Prod.mk.injEq] at h
    exact Nat.le_of_eq (by rw [h.2])
  · simp only [Option.some.injEq, Prod.mk.injEq] at h
    exact Nat.le_of_eq (by rw [h.2])
  · exact length_le_of_repeatLast? h
  · exact length_le_of_repeatLast? h
  · exact length_le_of_repeatLast? h
  · simp at h
  · exact Nat.le_of_eq (by rw [Context.eq_of_item? h])
  · exact Nat.le_of_eq (by rw [Context.eq_of_item? h])
  · exact Nat.le_of_eq (by rw [Context.eq_of_item? h])
  · obtain ⟨_, opened, h⟩ := Option.bind_eq_some_iff.mp h
    obtain ⟨⟨_, _⟩, closed, h⟩ := Option.bind_eq_some_iff.mp h
    simp only [Option.pure_def, Option.some.injEq, Prod.mk.injEq] at h
    obtain ⟨-, rfl⟩ := h
    have := length_le_of_openClass? opened
    have := length_lt_of_closeClass? closed
    omega
  · obtain ⟨_, escaped, h⟩ := Option.bind_eq_some_iff.mp h
    rw [Context.eq_of_item? h]
    exact Nat.le_of_lt (length_lt_of_escape? escaped)
  · exact Nat.le_of_eq (by rw [Context.eq_of_item? h])

/-- Whether a text completes a pattern. -/
def completes (context : Context) (text : List Char) : Bool :=
  match _skipped : context.modes.skip text with
  | [] => context.isComplete
  | first :: rest =>
    match _step : step? context first rest with
    | none => false
    | some (next, rest) => completes next rest
termination_by text.length
decreasing_by
  have shorter := context.modes.length_skip_le text
  rw [_skipped] at shorter
  exact Nat.lt_of_lt_of_le (Nat.lt_succ_of_le (length_le_of_step? _step)) shorter

theorem completes_of_skip_eq_nil {context : Context} {text : List Char}
    (skipped : context.modes.skip text = []) :
    completes context text = context.isComplete := by
  unfold completes
  split <;> simp_all

/-- What a step leaves has to complete the pattern. -/
theorem completes_of_step? {context next : Context} {first : Char} {text rest left : List Char}
    (skipped : context.modes.skip text = first :: rest)
    (step : step? context first rest = some (next, left)) :
    completes context text = completes next left := by
  rw [completes]
  split
  · simp_all
  · rename_i found
    rw [skipped] at found
    obtain ⟨rfl, rfl⟩ := List.cons.inj found
    split <;> simp_all

end Pattern

/-- Whether a text is a pattern. -/
def isPattern (text : List Char) : Bool :=
  Pattern.completes {} text

/-- Every text of ASCII letters and digits is a pattern. -/
theorem isPattern_of_all_isAlphanum {text : List Char} (h : text.all Char.isAlphanum = true) :
    isPattern text = true := by
  suffices plain : ∀ context : Pattern.Context, context.modes = {} → context.outer = [] →
      context.group.alternatives = {} → context.group.items.deepest = 0 →
      Pattern.completes context text = true from plain {} rfl rfl rfl rfl
  induction text with
  | nil =>
    intro context modes outer alternatives flat
    have shallow := Pattern.Row.depth_le_one flat
    rw [Pattern.completes_of_skip_eq_nil (by simp [modes, Pattern.Modes.skip])]
    simp only [Pattern.Context.isComplete, outer, List.isEmpty_nil, Bool.true_and,
      decide_eq_true_eq, Pattern.Group.depth, alternatives, Pattern.Row.depth_add_empty,
      Pattern.nestingLimit]
    omega
  | cons first rest ih =>
    intro context modes outer alternatives flat
    simp only [List.all_cons, Bool.and_eq_true] at h
    have step : Pattern.step? context first rest
        = some ({ context with group := context.group.add 0 }, rest) := by
      unfold Pattern.step?
      split
      case h_13 => simp [modes, Pattern.Context.item?, Pattern.Modes.needsCases]
      all_goals exact absurd h.1 (by decide)
    rw [Pattern.completes_of_step? (by simp [modes, Pattern.Modes.skip]) step]
    exact ih h.2 _ modes outer alternatives (by simp [Pattern.Group.add, Pattern.Row.add, flat])

end BeamCalc
