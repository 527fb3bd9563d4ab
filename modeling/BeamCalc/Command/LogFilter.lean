import BeamCalc.Command.Directive
import BeamCalc.Report

/-!
# Log filters

Which events are shown is chosen by a `LogFilter`, a list of directives separated by commas. Of
the directives about an event the most specific one decides: the event is shown if the directive
sets its level or a further one. An event that no directive is about is not shown.
`concerns_of_decisive?` and `yieldsTo_of_decisive?` say that the deciding directive is the one
meant.
-/

set_option autoImplicit false
set_option relaxedAutoImplicit false

namespace BeamCalc

/-- The part of the program that an event comes from. -/
inductive EventSource where
  | calculator
  | notices
  deriving Repr, DecidableEq

/-- The name by which directives choose a source. -/
def EventSource.name : EventSource → String
  | calculator => "calculator"
  | notices => "notices"

namespace Event

/-- The source of an event. -/
def source : Event → EventSource
  | parsed _ _ => .calculator
  | unresolved _ => .notices
  | evaluated _ _ => .calculator

/-- The severity of an event: notices are warnings, all else is for tracing. -/
def level : Event → LogLevel
  | parsed _ _ => .trace
  | unresolved _ => .warn
  | evaluated _ _ => .trace

/-- The names of the fields of an event, by which directives choose it. -/
def fields : Event → List String
  | parsed _ _ => ["message", "expression", "instructions"]
  | unresolved _ => ["message", "name"]
  | evaluated _ _ => ["message", "instructions", "value"]

end Event

/-- The directives of a filter, in order. -/
structure LogFilter where
  directives : List Directive
  deriving Repr, DecidableEq

namespace LogFilter

/-- The filter that shows all events of a level or of a more severe one. -/
def ofLevel (level : LogLevel) : LogFilter := ⟨[⟨[], .all, level⟩]⟩

/-- The filter that shows warnings and errors. -/
def standard : LogFilter := ofLevel .warn

/-- The filter that a text writes. Empty directives are passed over, and a text without any shows
errors only. -/
def ofText? (text : String) : Option LogFilter :=
  let pieces := (Text.segments ',' text.toList).filter (!·.isEmpty)
  if pieces.isEmpty then some (ofLevel .error)
  else (pieces.mapM Directive.ofText?).map LogFilter.mk

/-- The filter of a setting that may be missing or invalid. -/
def ofSetting (setting : Option String) : LogFilter :=
  (setting.bind ofText?).getD standard

/-- The directive that decides among some: of the most specific ones the last. -/
def mostSpecific? : (directives : List Directive) → Option Directive
  | [] => none
  | directive :: later =>
    match mostSpecific? later with
    | none => some directive
    | some other => if directive.yieldsTo other then some other else some directive

/-- The directive that decides about an event with the given fields, from a source with the given
name. -/
def decisive? (filter : LogFilter) (source : String) (fields : List String) : Option Directive :=
  mostSpecific? (filter.directives.filter (·.concerns source.toList fields))

/-- Whether an event of a source with the given name is shown. -/
def admits (filter : LogFilter) (source : String) (event : Event) : Bool :=
  match filter.decisive? source event.fields with
  | some directive => event.level.rank ≤ directive.level.rank
  | none => false

theorem mem_of_mostSpecific? {directives : List Directive} {best : Directive}
    (h : mostSpecific? directives = some best) : best ∈ directives := by
  induction directives generalizing best with
  | nil => simp [mostSpecific?] at h
  | cons directive later ih =>
    simp only [mostSpecific?] at h
    split at h
    · obtain rfl := Option.some.inj h
      exact List.mem_cons_self
    · rename_i found
      split at h
      · obtain rfl := Option.some.inj h
        exact List.mem_cons_of_mem _ (ih found)
      · obtain rfl := Option.some.inj h
        exact List.mem_cons_self

theorem mostSpecific?_eq_none_iff {directives : List Directive} :
    mostSpecific? directives = none ↔ directives = [] := by
  cases directives with
  | nil => simp [mostSpecific?]
  | cons directive later =>
    simp only [mostSpecific?, reduceCtorEq, iff_false]
    split
    · simp
    · split <;> simp

theorem yieldsTo_of_mostSpecific? {directives : List Directive} {best : Directive}
    (h : mostSpecific? directives = some best) :
    ∀ directive ∈ directives, directive.yieldsTo best = true := by
  induction directives generalizing best with
  | nil => simp
  | cons directive later ih =>
    simp only [mostSpecific?] at h
    rw [List.forall_mem_cons]
    split at h
    · rename_i none_later
      obtain rfl := Option.some.inj h
      obtain rfl := mostSpecific?_eq_none_iff.mp none_later
      exact ⟨directive.yieldsTo_refl, by simp⟩
    · rename_i found
      split at h
      · rename_i yields
        obtain rfl := Option.some.inj h
        exact ⟨yields, ih found⟩
      · rename_i stands
        obtain rfl := Option.some.inj h
        have back := (directive.yieldsTo_total _).resolve_left stands
        exact ⟨directive.yieldsTo_refl, fun other listed ↦
          Directive.yieldsTo_trans (ih found other listed) back⟩

/-- The deciding directive is one of the filter that is about the event. -/
theorem concerns_of_decisive? {filter : LogFilter} {source : String} {fields : List String}
    {best : Directive} (h : filter.decisive? source fields = some best) :
    best ∈ filter.directives ∧ best.concerns source.toList fields = true :=
  List.mem_filter.mp (mem_of_mostSpecific? h)

/-- All directives about an event yield to the deciding one. -/
theorem yieldsTo_of_decisive? {filter : LogFilter} {source : String} {fields : List String}
    {best : Directive} (h : filter.decisive? source fields = some best) :
    ∀ directive ∈ filter.directives, directive.concerns source.toList fields = true →
      directive.yieldsTo best = true :=
  fun _ listed concerned ↦
    yieldsTo_of_mostSpecific? h _ (List.mem_filter.mpr ⟨listed, concerned⟩)

end LogFilter

end BeamCalc
