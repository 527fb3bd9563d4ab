import BeamCalc.Script.Statement

/-!
# Invocations

The arguments of a command line are read one after the other into an `Invocation`. Options may
stand before and after the one positional argument; `--` makes every argument after it positional.
A letter after a single dash is a short option, and several may share a dash; a short option that
takes a value takes what follows it behind the dash, or else the next argument.
-/

set_option autoImplicit false
set_option relaxedAutoImplicit false

namespace BeamCalc

/-- What a command line asks for. -/
structure Invocation where
  /-- The expression, or the path of a script. -/
  contents : String
  /-- Whether the contents are the path of a script. -/
  isScript : Bool
  task : Task
  policy : Policy
  /-- The variables bound on the command line, in order. -/
  bound : List (String × Float)

/-- An option without a value, which may be given once. -/
inductive Switch where
  /-- The positional argument is the path of a script. -/
  | file
  /-- A name without a value is an error. -/
  | strict
  /-- A name without a value gives no notice. -/
  | quiet
  /-- Programs are shown instead of values. -/
  | program
  deriving Repr, DecidableEq

/-- What an option name asks for. -/
inductive OptionName where
  | switch (switch : Switch)
  /-- Binds a variable, with `NAME=VALUE` as its value. -/
  | bind
  /-- Asks for the usage instead of a calculation. -/
  | help
  /-- Asks for the version instead of a calculation. -/
  | version
  deriving Repr, DecidableEq

/-- Why there is nothing to calculate. -/
inductive Refusal where
  /-- The usage was asked for. -/
  | help
  /-- The version was asked for. -/
  | version
  /-- The arguments make no invocation. -/
  | misuse
  deriving Repr, DecidableEq

/-- The options by the names after two dashes. -/
def OptionName.ofLong? (name : String) : Option OptionName :=
  [("file", switch .file), ("var", bind), ("strict", switch .strict), ("quiet", switch .quiet),
    ("postfix", switch .program), ("help", help), ("version", version)].lookup name

/-- The options by the letters after one dash. -/
def OptionName.ofShort? (letter : Char) : Option OptionName :=
  [('f', switch .file), ('v', bind), ('q', switch .quiet), ('h', help),
    ('V', version)].lookup letter

namespace Invocation

/-- The arguments read so far. -/
structure Draft where
  positional : Option String := none
  switches : List Switch := []
  bound : List (String × Float) := []
  /-- Whether the next argument is the value of a binding option. -/
  awaitsBinding : Bool := false
  /-- Whether every further argument is positional. -/
  onlyPositional : Bool := false

namespace Draft

/-- Takes a positional argument, of which there is one. -/
def addPositional (draft : Draft) (argument : String) : Except Refusal Draft :=
  if draft.positional.isNone then .ok { draft with positional := some argument }
  else .error .misuse

/-- Takes an option without a value, which is given at most once. -/
def addSwitch (draft : Draft) (switch : Switch) : Except Refusal Draft :=
  if switch ∈ draft.switches then .error .misuse
  else .ok { draft with switches := switch :: draft.switches }

/-- Takes the value of a binding option. -/
def addBinding (draft : Draft) (value : String) : Except Refusal Draft :=
  match readBinding value with
  | .ok entry => .ok { draft with bound := draft.bound ++ [entry], awaitsBinding := false }
  | .error _ => .error .misuse

/-- Takes an option with the value that is attached to it, if one is. -/
def addOption (draft : Draft) (option : OptionName) (attached : Option String) :
    Except Refusal Draft :=
  match option, attached with
  | .switch switch, none => draft.addSwitch switch
  | .bind, some value => draft.addBinding value
  | .bind, none => .ok { draft with awaitsBinding := true }
  | .help, none => .error .help
  | .version, none => .error .version
  | _, some _ => .error .misuse

/-- Takes the argument after two dashes: a name, and a value after `=`. -/
def addLong (draft : Draft) (argument : List Char) : Except Refusal Draft :=
  let (name, attached) :=
    match Text.cut? ['='] argument with
    | some (name, value) => (name, some (String.ofList value))
    | none => (argument, none)
  match OptionName.ofLong? (String.ofList name) with
  | some option => draft.addOption option attached
  | none => .error .misuse

/-- Takes the letters after one dash. What follows the letter of an option with a value is the
value, without an equals sign at its beginning. -/
def addShort (draft : Draft) : (letters : List Char) → Except Refusal Draft
  | [] => .ok draft
  | letter :: others =>
    match OptionName.ofShort? letter with
    | none => .error .misuse
    | some .bind =>
      match others with
      | [] => draft.addOption .bind none
      | '=' :: value => draft.addOption .bind (some (String.ofList value))
      | value => draft.addOption .bind (some (String.ofList value))
    | some option => do
      let draft ← draft.addOption option none
      draft.addShort others

/-- Takes the next argument. A single dash is no option. -/
def add (draft : Draft) (argument : String) : Except Refusal Draft :=
  if draft.onlyPositional then draft.addPositional argument
  else
    match draft.awaitsBinding, argument.toList with
    | true, '-' :: _ :: _ => .error .misuse
    | true, _ => draft.addBinding argument
    | false, ['-', '-'] => .ok { draft with onlyPositional := true }
    | false, '-' :: '-' :: name => draft.addLong name
    | false, '-' :: letter :: others => draft.addShort (letter :: others)
    | false, _ => draft.addPositional argument

/-- The invocation of all arguments, which lacks no value and no positional argument. -/
def finish (draft : Draft) : Except Refusal Invocation :=
  match draft.awaitsBinding, draft.positional with
  | false, some contents =>
    .ok {
      contents
      isScript := Switch.file ∈ draft.switches
      task := if Switch.program ∈ draft.switches then .program else .value
      policy := { strict := Switch.strict ∈ draft.switches
                  notices := Switch.quiet ∉ draft.switches }
      bound := draft.bound }
  | _, _ => .error .misuse

end Draft

/-- The invocation that a list of arguments makes. -/
def ofArguments (arguments : List String) : Except Refusal Invocation := do
  let draft ← arguments.foldlM Draft.add {}
  draft.finish

/-- The bindings that an invocation starts from; the last value of a name counts. -/
def bindings (invocation : Invocation) : Bindings :=
  .ofList invocation.bound

/-- The calculator that an invocation uses. -/
def calculator (invocation : Invocation) : Calculator :=
  { policy := invocation.policy }

end Invocation

end BeamCalc
