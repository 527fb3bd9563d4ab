import BeamCalc.Command.Response

/-!
# The command

The command evaluates an expression or a script as its arguments ask. Events are shown as the
environment variable `BEAMCALC_LOG` chooses.
-/

set_option autoImplicit false
set_option relaxedAutoImplicit false

namespace BeamCalc

/-- The text of a file, if it can be read and is text. -/
def readText (path : String) : IO (Option String) := do
  try
    return String.fromUTF8? (← IO.FS.readBinFile path)
  catch _ =>
    return none

/-- Writes a response and gives its exit code. -/
def Response.write (response : Response) : IO UInt32 := do
  response.errors.forM fun line ↦ IO.eprintln line
  response.output.forM fun line ↦ IO.println line
  return response.exitCode.toUInt32

/-- The response to the arguments of a command line. -/
def respond (arguments : List String) : IO Response := do
  match Invocation.ofArguments arguments with
  | .error refusal => return .ofRefusal refusal
  | .ok invocation =>
    let filter := LogFilter.ofSetting (← IO.getEnv "BEAMCALC_LOG")
    let journal := BeamCalc.journal filter EventSource.name
    if invocation.isScript then
      return .ofScript invocation journal (← readText invocation.contents)
    else return .ofExpression invocation journal

end BeamCalc

def main (arguments : List String) : IO UInt32 := do
  (← BeamCalc.respond arguments).write
