import FormulaEngine.Decimal.Reader
import FormulaEngine.Options
import FormulaEngine.Text.Blank

/-!
# Command line arguments

A command is one formula with options.  An option is long, `--mode`, or
short, `-v`, and some take a value: attached to the option, or as the next
argument.  Arguments after `--` are no options.

The arguments are read one by one.  A value that stands as an argument of
its own is looked at when the next option or formula comes, or at the end.
So an unknown option is reported before a faulty value in front of it.
-/

namespace FormulaEngine

namespace CommandLine

open Text

/-- Why the arguments make no command. -/
inductive UsageError where
  | displayHelp
  | displayVersion
  | missingRequiredArgument
  | valueValidation (message : String)
  | invalidValue
  | unknownArgument
  | argumentConflict
  | tooManyValues
  deriving DecidableEq

/-- The name of a usage error. -/
def UsageError.name : UsageError → String
  | .displayHelp => "DisplayHelp"
  | .displayVersion => "DisplayVersion"
  | .missingRequiredArgument => "MissingRequiredArgument"
  | .valueValidation _ => "ValueValidation"
  | .invalidValue => "InvalidValue"
  | .unknownArgument => "UnknownArgument"
  | .argumentConflict => "ArgumentConflict"
  | .tooManyValues => "TooManyValues"

/-- The message of a faulty value. -/
def UsageError.message? : UsageError → Option String
  | .valueValidation message => some message
  | _ => none

/-- The exit code: asking for help or the version is no error. -/
def UsageError.exitCode : UsageError → Nat
  | .displayHelp | .displayVersion => 0
  | _ => 2

/-! ## Values -/

/-- A name with its value. -/
abbrev Binding := String × Decimal

/-- Splits a text at its first equals sign. -/
def splitAtEquals? (chars : List Char) : Option (List Char × List Char) :=
  match splitRun (fun c => c != '=') chars with
  | (_, []) => none
  | (before, _ :: after) => some (before, after)

/-- Reads a binding: a name, an equals sign and a number.  Blanks around
the name and the number do not count. -/
def readBinding (text : String) : Except String Binding :=
  match splitAtEquals? text.toList with
  | none => .error ("expected NAME=VALUE, got `" ++ text ++ "`")
  | some (before, after) =>
    let name := trimChars before
    let value := trimChars after
    if name.isEmpty then .error ("missing name in `" ++ text ++ "`")
    else
      match Decimal.readChars value with
      | .ok d => .ok (String.ofList name, d)
      | .error e =>
        .error ("invalid number `" ++ String.ofList value ++ "`: " ++ e.message)

/-- The digits of a signed 64-bit integer, from the left.  What comes first
decides: a strange character, or a value out of range. -/
def readSigned64Digits (negative : Bool) (value : Nat) : List Char → Except String Nat
  | [] => .ok value
  | c :: rest =>
    if !c.isDigit then .error "invalid digit found in string"
    else
      let next := value * 10 + Decimal.digitValue c
      if next < twoTo 63 || (negative && next == twoTo 63) then
        readSigned64Digits negative next rest
      else if negative then .error "number too small to fit in target type"
      else .error "number too large to fit in target type"

/-- Reads a signed 64-bit integer. -/
def readSigned64 (text : String) : Except String Int :=
  match text.toList with
  | [] => .error "cannot parse integer from empty string"
  | chars =>
    let (negative, digits) := Decimal.splitSign chars
    if digits.isEmpty then .error "invalid digit found in string"
    else
      match readSigned64Digits negative 0 digits with
      | .error e => .error e
      | .ok n => .ok (if negative then -(n : Int) else n)

/-- Reads how often the formula is evaluated: at least once. -/
def readRepeat (text : String) : Except String Nat :=
  match readSigned64 text with
  | .error e => .error e
  | .ok n =>
    if 1 ≤ n ∧ n < twoTo 32 then .ok n.toNat
    else .error (toString n ++ " is not in 1..=4294967295")

/-! ## Options -/

/-- The options with a value. -/
inductive ValueOption where
  | variable
  | constant
  | mode
  | repetition
  deriving DecidableEq

/-- The options without a value. -/
inductive FlagOption where
  | noOptimize
  | caseSensitive
  | help
  | version
  deriving DecidableEq

/-- Any option. -/
inductive OptionName where
  | valued (option : ValueOption)
  | flag (option : FlagOption)
  deriving DecidableEq

/-- The long options. -/
def longOption? (name : String) : Option OptionName :=
  match name with
  | "var" => some (.valued .variable)
  | "constant" => some (.valued .constant)
  | "mode" => some (.valued .mode)
  | "repeat" => some (.valued .repetition)
  | "no-optimize" => some (.flag .noOptimize)
  | "case-sensitive" => some (.flag .caseSensitive)
  | "help" => some (.flag .help)
  | "version" => some (.flag .version)
  | _ => none

/-- The short options. -/
def shortOption? (letter : Char) : Option OptionName :=
  match letter with
  | 'v' => some (.valued .variable)
  | 'c' => some (.valued .constant)
  | 'h' => some (.flag .help)
  | 'V' => some (.flag .version)
  | _ => none

/-- What has been read of the arguments.  `pending` is the last option with
a value that is not looked at yet, with the value if it has come. -/
structure Reading where
  vars : List Binding := []
  constants : List Binding := []
  mode : Option ExecutionMode := none
  noOptimize : Bool := false
  caseSensitive : Bool := false
  repetitions : Option Nat := none
  formula : Option String := none
  pending : Option (ValueOption × Option String) := none

namespace Reading

/-- Takes the value of an option. -/
def setValue (r : Reading) (option : ValueOption) (value : String) :
    Except UsageError Reading :=
  match option with
  | .variable =>
    match readBinding value with
    | .ok binding => .ok { r with vars := r.vars ++ [binding] }
    | .error e => .error (.valueValidation e)
  | .constant =>
    match readBinding value with
    | .ok binding => .ok { r with constants := r.constants ++ [binding] }
    | .error e => .error (.valueValidation e)
  | .mode =>
    if r.mode.isSome then .error .argumentConflict
    else
      match ExecutionMode.ofName? value with
      | some mode => .ok { r with mode := some mode }
      | none => .error .invalidValue
  | .repetition =>
    if r.repetitions.isSome then .error .argumentConflict
    else
      match readRepeat value with
      | .ok n => .ok { r with repetitions := some n }
      | .error e => .error (.valueValidation e)

/-- Takes the value of the pending option. -/
def settle (r : Reading) : Except UsageError Reading :=
  match r.pending with
  | none => .ok r
  | some (_, none) => .error .invalidValue
  | some (option, some value) => { r with pending := none }.setValue option value

/-- Sets a flag, which must not be set twice. -/
def setFlag (r : Reading) (flag : FlagOption) : Except UsageError Reading :=
  match flag with
  | .noOptimize =>
    if r.noOptimize then .error .argumentConflict else .ok { r with noOptimize := true }
  | .caseSensitive =>
    if r.caseSensitive then .error .argumentConflict
    else .ok { r with caseSensitive := true }
  | .help => .error .displayHelp
  | .version => .error .displayVersion

/-- Takes an option with a value that is attached to it or still to come. -/
def takeValued (r : Reading) (option : ValueOption) (attached : Option String) :
    Except UsageError Reading :=
  match r.settle with
  | .error e => .error e
  | .ok settled =>
    match attached with
    | some value => settled.setValue option value
    | none => .ok { settled with pending := some (option, none) }

/-- Takes a flag. -/
def takeFlag (r : Reading) (flag : FlagOption) : Except UsageError Reading :=
  match r.settle with
  | .error e => .error e
  | .ok settled => settled.setFlag flag

/-- Takes a long option, without its dashes. -/
def takeLong (r : Reading) (chars : List Char) : Except UsageError Reading :=
  let (name, attached) :=
    match splitAtEquals? chars with
    | some (before, after) => (before, some (String.ofList after))
    | none => (chars, none)
  match longOption? (String.ofList name), attached with
  | none, _ => .error .unknownArgument
  | some (.valued option), _ => r.takeValued option attached
  | some (.flag _), some _ => .error .tooManyValues
  | some (.flag flag), none => r.takeFlag flag

/-- Takes a run of short options, without the dash.  What follows the letter
of an option with a value is its value, with or without an equals sign. -/
def takeShort (r : Reading) : List Char → Except UsageError Reading
  | [] => .ok r
  | letter :: rest =>
    match shortOption? letter with
    | none => .error .unknownArgument
    | some (.flag flag) =>
      match r.takeFlag flag with
      | .error e => .error e
      | .ok next => next.takeShort rest
    | some (.valued option) =>
      match rest with
      | [] => r.takeValued option none
      | '=' :: value => r.takeValued option (some (String.ofList value))
      | value => r.takeValued option (some (String.ofList value))

/-- Takes the formula, of which there is only one. -/
def takeFormula (r : Reading) (text : String) : Except UsageError Reading :=
  if r.formula.isSome then .error .unknownArgument
  else
    match r.settle with
    | .error e => .error e
    | .ok settled => .ok { settled with formula := some text }

/-- Takes an argument that is no option: the value of an option that still
waits for one, or the formula. -/
def takeOther (r : Reading) (text : String) : Except UsageError Reading :=
  match r.pending with
  | some (option, none) => .ok { r with pending := some (option, some text) }
  | _ => r.takeFormula text

/-- Takes an argument in front of `--`. -/
def take (r : Reading) (text : String) : Except UsageError Reading :=
  match text.toList with
  | '-' :: '-' :: rest => r.takeLong rest
  | ['-'] => r.takeOther text
  | '-' :: rest => r.takeShort rest
  | _ => r.takeOther text

/-- Takes the arguments after `--`. -/
def takeFormulas (r : Reading) : List String → Except UsageError Reading
  | [] => .ok r
  | text :: rest =>
    match r.takeFormula text with
    | .error e => .error e
    | .ok next => next.takeFormulas rest

/-- Takes all arguments. -/
def takeAll (r : Reading) : List String → Except UsageError Reading
  | [] => .ok r
  | text :: rest =>
    if text = "--" then r.takeFormulas rest
    else
      match r.take text with
      | .error e => .error e
      | .ok next => next.takeAll rest

end Reading

/-- What the arguments ask for. -/
structure Command where
  vars : List Binding
  constants : List Binding
  mode : ExecutionMode
  optimize : Bool
  caseSensitive : Bool
  repetitions : Nat
  formula : String

/-- The command of the arguments. -/
def readArguments (arguments : List String) : Except UsageError Command :=
  match Reading.takeAll {} arguments with
  | .error e => .error e
  | .ok r =>
    match r.settle with
    | .error e => .error e
    | .ok settled =>
      match settled.formula with
      | none => .error .missingRequiredArgument
      | some formula =>
        .ok
          { vars := settled.vars
            constants := settled.constants
            mode := settled.mode.getD .compiled
            optimize := !settled.noOptimize
            caseSensitive := settled.caseSensitive
            repetitions := settled.repetitions.getD 1
            formula := formula }

end CommandLine

end FormulaEngine
