import BeamCalc.Command.Invocation
import BeamCalc.Command.Journal
import BeamCalc.Script

/-!
# Responses

What the command answers to an invocation: lines for the standard output and the standard error,
and an exit code. Answers go to the output; the journal and then the errors go to the standard
error. The exit code is 0 unless something failed.
-/

set_option autoImplicit false
set_option relaxedAutoImplicit false

namespace BeamCalc

/-- The lines that a command writes, and its exit code. -/
structure Response where
  output : List String
  errors : List String
  exitCode : Nat
  deriving Repr, DecidableEq

namespace Response

/-- The response to a calculation with the given answers and failures. -/
def ofAnswers (journal : List String) (answers : List (Except String String)) : Response :=
  let failures := answers.filterMap fun
    | .error text => some text
    | .ok _ => none
  { output := answers.filterMap Except.toOption
    errors := journal ++ failures
    exitCode := if failures.isEmpty then 0 else 1 }

/-- The response to one expression or assignment. -/
def ofExpression (invocation : Invocation) (journal : List Event → List String) : Response :=
  let report := (Statement.ofLine invocation.contents).run invocation.calculator invocation.task
    false invocation.bindings
  let answer :=
    match report.result with
    | .ok (text, _) => Except.ok text
    | .error failure => .error failure.message
  ofAnswers (journal report.events) [answer]

/-- The response to a script, or to a file that cannot be read as text. -/
def ofScript (invocation : Invocation) (journal : List Event → List String)
    (script : Option String) : Response :=
  match script with
  | some text =>
    let run := Script.run invocation.calculator invocation.task invocation.bindings text
    ofAnswers (journal run.events) (run.entries.map Entry.text)
  | none =>
    { output := []
      errors := [s!"Failed to read the input file '{invocation.contents}'. "
        ++ "Perhaps this file does not exist?"]
      exitCode := 1 }

/-- The summary of the command line. -/
def usage : List String :=
  ["Usage: beamcalc [OPTIONS] <CONTENTS>",
    "",
    "  -f, --file            Evaluate the lines of the file CONTENTS",
    "  -v, --var NAME=VALUE  Bind a variable; may be repeated",
    "      --strict          Fail on names that have no value",
    "  -q, --quiet           Do not warn about names that count as 0.0",
    "      --postfix         Print programs instead of values"]

/-- The response to arguments that ask for no calculation. -/
def ofRefusal : Refusal → Response
  | .help => { output := usage, errors := [], exitCode := 0 }
  | .version => { output := ["beamcalc 0.1.0"], errors := [], exitCode := 0 }
  | .misuse => { output := [], errors := usage, exitCode := 2 }

end Response

end BeamCalc
