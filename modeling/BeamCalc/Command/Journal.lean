import BeamCalc.Command.LogFilter
import BeamCalc.Number.Writing

/-!
# The journal

Each event that the log filter admits is one line of the journal: the level, the message and the
fields of the event. Texts from the user are quoted, with the characters that would break the line
escaped.
-/

set_option autoImplicit false
set_option relaxedAutoImplicit false

namespace BeamCalc

namespace Text

/-- The escaped form of a character inside quotes. Of the characters that an expression can hold
only quotes, backslashes and the separators need one. -/
def escape : Char → List Char
  | '"' => ['\\', '"']
  | '\\' => ['\\', '\\']
  | '\t' => ['\\', 't']
  | '\n' => ['\\', 'n']
  | '\r' => ['\\', 'r']
  | '\x0c' => "\\u\x7bc\x7d".toList
  | character => [character]

/-- A text in double quotes. -/
def quoted (text : String) : String :=
  String.ofList ('"' :: text.toList.flatMap escape ++ ['"'])

end Text

namespace Event

/-- The message and the fields of an event. -/
def text : Event → String
  | parsed text instructions =>
    s!"parsed expression expression={Text.quoted text} instructions={instructions}"
  | unresolved notice => s!"{notice.message} name={notice.name}"
  | evaluated instructions value =>
    s!"evaluated expression instructions={instructions} value={Number.journal value}"

/-- The line of an event in the journal. -/
def line (event : Event) : String :=
  s!"{event.level.label} {event.text}"

end Event

/-- The lines of the events that a filter admits, where `sourceName` names their sources. -/
def journal (filter : LogFilter) (sourceName : EventSource → String) (events : List Event) :
    List String :=
  (events.filter fun event ↦ filter.admits (sourceName event.source) event).map Event.line

end BeamCalc
