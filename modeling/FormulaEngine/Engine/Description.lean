import FormulaEngine.Engine
import FormulaEngine.Text.Quoted

/-!
# Descriptions

How functions, options and engines describe themselves on one line: the
name of the thing and its parts in braces, where two dots stand for parts
that are not shown.
-/

namespace FormulaEngine

open Text

/-- A named part of a description. -/
def part (name value : String) : String := name ++ ": " ++ value

/-- The description of a thing with parts. -/
def describeParts (name : String) (parts : List String) : String :=
  name ++ " \x7b " ++ ", ".intercalate parts ++ " \x7d"

/-- The description of an arity. -/
def Arity.describe : Arity → String
  | .fixed count => "Fixed(" ++ toString count ++ ")"
  | .dynamic => "Dynamic"

/-- The description of an execution mode. -/
def ExecutionMode.describe : ExecutionMode → String
  | .interpreted => "Interpreted"
  | .compiled => "Compiled"

/-- The description of a registered function. -/
def describeFunction (entry : Entry Function) : String :=
  describeParts "FunctionInfo"
    [part "name" (quoteText entry.name),
      part "arity" entry.content.arity.describe,
      part "is_idempotent" (toString entry.content.isIdempotent),
      part "is_overwritable" (toString entry.isOverwritable), ".."]

/-- The description of options. -/
def Options.describe (options : Options) : String :=
  describeParts "Options"
    [part "case_sensitive" (toString options.caseSensitive),
      part "cache_enabled" (toString options.cacheEnabled),
      part "cache_maximum_size" (toString options.cacheMaximumSize),
      part "cache_reduction_size" (toString options.cacheReductionSize),
      part "optimizer_enabled" (toString options.optimizerEnabled),
      part "execution_mode" options.executionMode.describe,
      part "default_functions" (toString options.defaultFunctions),
      part "default_constants" (toString options.defaultConstants),
      part "decimal_separator" (quoteChar options.decimalSeparator)]

/-- The description of an engine. -/
def Engine.describe (engine : Engine) : String :=
  describeParts "Engine"
    [part "options" engine.options.describe,
      part "functions" (toString engine.functions.size),
      part "constants" (toString engine.constants.size),
      part "cached_formulas" (toString engine.cache.size), ".."]

end FormulaEngine
