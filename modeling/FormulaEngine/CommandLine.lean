import FormulaEngine.CommandLine.Arguments
import FormulaEngine.Engine

/-!
# The command line

A command evaluates one formula on an engine of its own and prints the
value.  Without bound constants the formula is calculated; with some it is
built and called, and then the constants of the engine are added to the
variables unless a variable shadows them.
-/

namespace FormulaEngine

namespace CommandLine

namespace Command

/-- The options of the engine for a command. -/
def options (command : Command) : Options :=
  { caseSensitive := command.caseSensitive
    optimizerEnabled := command.optimize
    executionMode := command.mode }

/-- Whether a variable shadows a name under the case policy. -/
def shadows (caseSensitive : Bool) (vars : Variables) (name : String) : Bool :=
  vars.names.any fun key =>
    Text.canonical caseSensitive key == Text.canonical caseSensitive name

/-- The variables with the constants of the engine that they do not
shadow. -/
def withEngineConstants (caseSensitive : Bool) (constants : Constants)
    (vars : Variables) : Variables :=
  constants.entries.foldl
    (fun all entry =>
      if shadows caseSensitive vars entry.name then all
      else all.insert entry.name entry.content)
    vars

/-- Evaluates the formula of a command once. -/
def evaluate (command : Command) (engine : Engine) : Except Failure Decimal × Engine :=
  let vars := Variables.ofList command.vars
  let constants := Variables.ofList command.constants
  if constants.isEmpty then engine.calculate command.formula vars
  else
    match engine.build command.formula (some constants) with
    | (.error failure, after) => (.error failure, after)
    | (.ok formula, after) =>
      let all := withEngineConstants command.caseSensitive after.constants vars
      match after.call formula all with
      | .error e => (.error (.of command.formula (.evaluation e)), after)
      | .ok value => (.ok value, after)

/-- Evaluates the formula of a command several times more, and answers the
last value or the first failure. -/
def evaluateMore (command : Command) (engine : Engine) (last : Decimal) :
    Nat → Except Failure Decimal
  | 0 => .ok last
  | times + 1 =>
    match command.evaluate engine with
    | (.error failure, _) => .error failure
    | (.ok value, after) => command.evaluateMore after value times

/-- The value of a command, with the number that `random` draws. -/
def run (command : Command) (draw : Decimal) : Except Failure Decimal :=
  match command.evaluate (.new command.options draw) with
  | (.error failure, _) => .error failure
  | (.ok value, engine) => command.evaluateMore engine value (command.repetitions - 1)

/-- The line that shows a value. -/
def output (value : Decimal) : String := value.toText ++ "\n"

end Command

end CommandLine

end FormulaEngine
