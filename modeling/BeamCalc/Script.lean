import BeamCalc.Script.Statement

/-!
# Scripts

A script is a text of lines. From each line the comment after `!`, blanks and semicolons at the end
are left out; what then is empty or begins with `//` is skipped, and every other line makes one
entry. A line that fails changes nothing, and the lines after it are run all the same.
-/

set_option autoImplicit false
set_option relaxedAutoImplicit false

namespace BeamCalc

/-- What a line of a script shows: its text, or the reason why there is none. -/
structure Entry where
  line : Nat
  outcome : Except Failure String

/-- The text of an entry. That of a failure begins with the number of the line. -/
def Entry.text (entry : Entry) : Except String String :=
  match entry.outcome with
  | .ok text => .ok text
  | .error failure => .error s!"line {entry.line}: {failure.message}"

namespace Script

/-- The part of a line that counts, without comment, blanks and final semicolons. -/
def content (line : List Char) : List Char :=
  Text.trimEnd (Text.dropEndWhile (· == ';') (Text.trim (line.takeWhile (· != '!'))))

/-- Whether the part of a line that counts makes a statement. -/
def isStatement (content : List Char) : Bool :=
  !content.isEmpty && !"//".toList.isPrefixOf content

/-- The numbers and contents of the lines that make statements. The first line has the number
`first`. -/
def statements (first : Nat) (text : String) : List (Nat × String) :=
  ((Text.segments '\n' text.toList).zipIdx first).filterMap fun (line, number) ↦
    let content := content line
    if isStatement content then some (number, String.ofList content) else none

/-- Entries, the bindings after them and the events on the way. -/
structure Run where
  entries : List Entry
  bindings : Bindings
  events : List Event

/-- Runs one numbered statement after the others. -/
def step (calculator : Calculator) (task : Task) (bindings : Bindings) (line : Nat)
    (content : String) : Run :=
  let report := (Statement.ofLine content).run calculator task true bindings
  match report.result with
  | .ok (text, bindings) => ⟨[⟨line, .ok text⟩], bindings, report.events⟩
  | .error failure => ⟨[⟨line, .error failure⟩], bindings, report.events⟩

/-- Runs numbered statements in order. -/
def runStatements (calculator : Calculator) (task : Task) (bindings : Bindings) :
    List (Nat × String) → Run
  | [] => ⟨[], bindings, []⟩
  | (line, content) :: others =>
    let first := step calculator task bindings line content
    let rest := runStatements calculator task first.bindings others
    ⟨first.entries ++ rest.entries, rest.bindings, first.events ++ rest.events⟩

/-- Runs a script. -/
def run (calculator : Calculator) (task : Task) (bindings : Bindings) (text : String) : Run :=
  runStatements calculator task bindings (statements 1 text)

/-- The notices among the events of a run, in order. -/
def Run.notices (run : Run) : List Notice :=
  run.events.filterMap Event.notice?

end Script

end BeamCalc
