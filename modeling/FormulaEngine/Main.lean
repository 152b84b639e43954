import FormulaEngine.CommandLine
import FormulaEngine.Decimal.Binary

/-!
# The program

Reads the arguments as a command, runs it, and prints the value of its
formula.  Errors go to the standard error stream.  The exit code is zero for
a value, one for a formula without a value and two for arguments that make
no command.
-/

namespace FormulaEngine

namespace CommandLine

/-- The version of the program. -/
def version : String := "0.1.0"

/-- How the program is used. -/
def usage : String :=
  "Evaluates a formula with exact decimal arithmetic.

Usage: formula [OPTIONS] FORMULA

Options:
  -v, --var NAME=VALUE       Sets a variable, can be repeated
  -c, --constant NAME=VALUE  Binds a constant when the formula is built, can be repeated
      --mode MODE            How the formula is evaluated: interpreted or compiled
      --no-optimize          Does not evaluate constant parts ahead of time
      --case-sensitive       Tells names apart that differ in case only
      --repeat COUNT         Evaluates the formula this many times
  -h, --help                 Prints this text
  -V, --version              Prints the version
"

/-- The text that reports a failure. -/
def failureReport (failure : Failure) : String :=
  let hint := match failure.cause.help? with
    | some help => "\n  help: " ++ help
    | none => ""
  failure.cause.code ++ ": " ++ failure.cause.message ++ hint

/-- Prints what arguments that make no command ask for. -/
def printUsageError (error : UsageError) : IO Unit :=
  match error with
  | .displayHelp => IO.print usage
  | .displayVersion => IO.println version
  | .valueValidation message => IO.eprintln ("error: " ++ message ++ "\n\n" ++ usage)
  | other => IO.eprintln ("error: " ++ other.name ++ "\n\n" ++ usage)

/-- A number between zero and one for `random`. -/
def drawRandom : IO Decimal := do
  let n ← IO.rand 0 (twoTo 53 - 1)
  let x := Decimal.floatOfNat n / Decimal.floatOfNat (twoTo 53)
  return (Decimal.ofFloat? x).getD .zero

/-- Runs the program on its arguments and answers the exit code. -/
def runProgram (arguments : List String) : IO UInt32 := do
  match readArguments arguments with
  | .error error =>
    printUsageError error
    return UInt32.ofNat error.exitCode
  | .ok command =>
    match command.run (← drawRandom) with
    | .error failure =>
      IO.eprintln (failureReport failure)
      return 1
    | .ok value =>
      IO.print (Command.output value)
      return 0

end CommandLine

end FormulaEngine

/-- Evaluates the formula that the arguments name. -/
def main (arguments : List String) : IO UInt32 :=
  FormulaEngine.CommandLine.runProgram arguments
