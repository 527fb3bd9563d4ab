import BeamCalc.Command.LogLevel
import BeamCalc.Pattern
import BeamCalc.Text.Bytes

/-!
# Directives

A directive such as `name[{field}]=level` sets a level for the events of the sources whose names
begin with a target, or for those of them that have a field. Every part may be missing.

A directive may also speak of spans, by their name or by the value of a field: stretches of work
that other programs enclose their events in. This program has none, so such a directive chooses no
event, but it has to be well formed.

The marks of a directive are looked for in its text without the blanks around it. Their positions
are counted from the first character that is no blank, but the parts are taken from these positions
of the whole text, so blanks at the beginning shift the parts. A text without marks is taken whole.
-/

set_option autoImplicit false
set_option relaxedAutoImplicit false

namespace BeamCalc

/-- Which events of its sources a directive chooses. -/
inductive Selection where
  /-- All events. -/
  | all
  /-- The events with a field of the name. -/
  | withField (name : String)
  /-- The events inside some span, of which there are none. -/
  | inSpan
  deriving Repr, DecidableEq

namespace Selection

/-- The values that a field can be compared with: patterns and numbers. Without a sign, a number
is a pattern anyway. -/
def isFieldValue (text : List Char) : Bool :=
  isPattern text
    || ((Number.read? text).isSome && !text.any fun mark ↦ mark == 'd' || mark == 'D')

/-- The selection by a field, or by its value after `=`. A second `=` ends the value. -/
def ofField? (text : List Char) : Option Selection :=
  match Text.segments '=' text with
  | _ :: value :: _ => if isFieldValue value then some .inSpan else none
  | _ => some (.withField (String.ofList text))

/-- The name of the field that a selection asks for, empty if it asks for none. -/
def fieldName : Selection → String
  | withField name => name
  | _ => ""

/-- Whether an event with the given fields is chosen. -/
def admits (fields : List String) : Selection → Bool
  | all => true
  | withField name => fields.contains name
  | inSpan => false

end Selection

/-- The level from which those events are shown that the selection chooses, if their source has a
name that begins with `target`. -/
structure Directive where
  target : List Char
  selection : Selection
  level : LogLevel
  deriving Repr, DecidableEq

/-- Where the parts of a directive stand: the end of the target, the field from its first position
to its end, and the beginning of the level; and whether a span is named. -/
structure Layout where
  target : Nat
  namesSpan : Bool := false
  field : Option (Nat × Nat) := none
  level : Option Nat := none
  deriving Repr, DecidableEq

namespace Layout

/-- A layout with the level that may follow a bracket, of which `text` at `position` is the rest. -/
def withLevel? (layout : Layout) (position : Nat) : (text : List Char) → Option Layout
  | [] => some layout
  | '=' :: _ => some { layout with level := some (position + 1) }
  | _ => none

/-- The layout of a directive with a bracket, after which `text` follows at `position`. -/
def ofBracket? (target position : Nat) (text : List Char) : Option Layout :=
  let isInName (character : Char) : Bool := character != ']' && character != '{'
  let name := text.takeWhile isInName
  let position := position + Text.byteLength name + 1
  match text.dropWhile isInName with
  | ']' :: rest => withLevel? { target, namesSpan := true } position rest
  | '{' :: rest => do
    let (field, rest) ← Text.cut? ['}'] rest
    let rest ← Text.after? [']'] rest
    let last := position + Text.byteLength field
    let layout : Layout :=
      { target, namesSpan := !name.isEmpty, field := some (position, last) }
    if field.isEmpty then none else layout.withLevel? (last + 2) rest
  | _ => none

/-- The characters of a directive before its first mark. -/
def isInTarget (character : Char) : Bool :=
  character != '=' && character != '['

/-- The layout of a directive with marks. -/
def ofText? (text : List Char) : Option Layout :=
  let position := Text.byteLength (text.takeWhile isInTarget)
  match text.dropWhile isInTarget with
  | '=' :: _ => some { target := position, level := some (position + 1) }
  | '[' :: rest => ofBracket? position (position + 1) rest
  | _ => none

/-- The selection that a text with this layout writes. -/
def selection? (layout : Layout) (text : List Char) : Option Selection :=
  match layout.field with
  | none => some (if layout.namesSpan then .inSpan else .all)
  | some (first, last) => do
    let selection ← Selection.ofField? (← Text.slice? first last text)
    return if layout.namesSpan then .inSpan else selection

/-- The level that a text with this layout writes: all events, unless there is one. -/
def level? (layout : Layout) (text : List Char) : Option LogLevel :=
  match layout.level with
  | none => some .trace
  | some position => do
    let (_, level) ← Text.splitAt? position text
    if level.isEmpty then some .trace else LogLevel.ofText? level

/-- The directive that a text with this layout writes. -/
def directive? (layout : Layout) (text : List Char) : Option Directive := do
  let (target, _) ← Text.splitAt? layout.target text
  return ⟨target, ← layout.selection? text, ← layout.level? text⟩

end Layout

namespace Directive

/-- The directive of a text without marks: a level for all sources, or a target of which all
events are shown. -/
def bare (text : List Char) : Directive :=
  match LogLevel.ofText? text with
  | some level => ⟨[], .all, level⟩
  | none => ⟨text, .all, .trace⟩

/-- The characters that a directive may begin with. -/
def isStart (character : Char) : Bool :=
  "[-:_".toList.contains character || Text.isAlphanumeric character

/-- The directive that a text writes. -/
def ofText? (text : List Char) : Option Directive :=
  let inner := Text.trim text
  if inner.head?.any isStart then
    if inner.all Layout.isInTarget then some (bare text)
    else (Layout.ofText? inner).bind (·.directive? text)
  else none

/-- Whether a directive is about an event with the given fields, from a source with the given
name. -/
def concerns (directive : Directive) (source : List Char) (fields : List String) : Bool :=
  directive.target.isPrefixOf source && directive.selection.admits fields

/-- Whether `other` decides if both are about one event: it has the longer target, or one of the
same length and a field that does not come before in the order of the dictionary. -/
def yieldsTo (directive other : Directive) : Bool :=
  directive.target.length < other.target.length
    || (directive.target.length == other.target.length
      && !decide (other.selection.fieldName < directive.selection.fieldName))

theorem yieldsTo_iff {directive other : Directive} :
    directive.yieldsTo other = true ↔ directive.target.length < other.target.length ∨
      directive.target.length = other.target.length ∧
        ¬ other.selection.fieldName < directive.selection.fieldName := by
  simp [yieldsTo]

theorem yieldsTo_refl (directive : Directive) : directive.yieldsTo directive = true :=
  yieldsTo_iff.mpr (.inr ⟨rfl, String.lt_irrefl _⟩)

theorem yieldsTo_trans {first second third : Directive} (h : first.yieldsTo second = true)
    (k : second.yieldsTo third = true) : first.yieldsTo third = true := by
  rw [yieldsTo_iff] at *
  rcases h with h | ⟨h, earlier⟩ <;> rcases k with k | ⟨k, later⟩
  · exact .inl (by omega)
  · exact .inl (by omega)
  · exact .inl (by omega)
  · refine .inr ⟨by omega, fun before ↦ ?_⟩
    rcases Std.lt_trichotomy first.selection.fieldName second.selection.fieldName with
      between | same | between
    · exact later (String.lt_trans before between)
    · exact later (same ▸ before)
    · exact earlier between

/-- Of two directives one decides. -/
theorem yieldsTo_total (first second : Directive) :
    first.yieldsTo second = true ∨ second.yieldsTo first = true := by
  simp only [yieldsTo_iff]
  rcases Nat.lt_trichotomy first.target.length second.target.length with h | h | h
  · exact .inl (.inl h)
  · by_cases before : second.selection.fieldName < first.selection.fieldName
    · exact .inr (.inr ⟨h.symm, fun after ↦
        String.lt_irrefl _ (String.lt_trans before after)⟩)
    · exact .inl (.inr ⟨h, before⟩)
  · exact .inr (.inl h)

end Directive

end BeamCalc
