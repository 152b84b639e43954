import FormulaEngine.Cache
import FormulaEngine.Formula

/-!
# Options

The choices that are made when an engine is created, and how they are
written in a document of nested records and lists.

A document may name any of the options, in a record or, in the order of
their declaration, in a list.  An option that it does not name keeps its
default.  A record may hold other fields, which are ignored; a list may not
be longer than there are options.
-/

namespace FormulaEngine

/-- The choices that an engine is created with. -/
structure Options where
  caseSensitive : Bool := false
  cacheEnabled : Bool := true
  cacheMaximumSize : Nat := Cache.defaultMaximumSize
  cacheReductionSize : Nat := Cache.defaultReductionSize
  optimizerEnabled : Bool := true
  executionMode : ExecutionMode := .compiled
  defaultFunctions : Bool := true
  defaultConstants : Bool := true
  decimalSeparator : Char := '.'
  deriving DecidableEq

/-- A document.  Of a number that is no integer only that much is known. -/
inductive Document where
  | null
  | flag (value : Bool)
  | integer (value : Int)
  | fraction
  | text (value : String)
  | list (members : List Document)
  | record (fields : List (String × Document))

namespace Document

instance : Inhabited Document := ⟨.null⟩

/-- A truth value. -/
def flag? : Document → Option Bool
  | .flag value => some value
  | _ => none

/-- A size: an integer of 64 bits without a sign. -/
def size? : Document → Option Nat
  | .integer value => if 0 ≤ value ∧ value < twoTo 64 then some value.toNat else none
  | _ => none

/-- A text of one character. -/
def character? : Document → Option Char
  | .text value =>
    match value.toList with
    | [c] => some c
    | _ => none
  | _ => none

end Document

namespace ExecutionMode

/-- The name of a mode in a document. -/
def name : ExecutionMode → String
  | .interpreted => "interpreted"
  | .compiled => "compiled"

/-- The mode of a name. -/
def ofName? (name : String) : Option ExecutionMode :=
  if name = ExecutionMode.interpreted.name then some .interpreted
  else if name = ExecutionMode.compiled.name then some .compiled
  else none

/-- The mode that a document names, as a text or as a record with that field
and no content. -/
def ofDocument? : Document → Option ExecutionMode
  | .text name => ofName? name
  | .record [(name, .null)] => ofName? name
  | _ => none

end ExecutionMode

namespace Options

/-- The names of the options in the order of their declaration. -/
def fieldNames : List String :=
  ["case_sensitive", "cache_enabled", "cache_maximum_size", "cache_reduction_size",
    "optimizer_enabled", "execution_mode", "default_functions", "default_constants",
    "decimal_separator"]

/-- Sets the option of a name; other names set nothing. -/
def set? (options : Options) (name : String) (value : Document) : Option Options :=
  match name with
  | "case_sensitive" => value.flag?.map fun v => { options with caseSensitive := v }
  | "cache_enabled" => value.flag?.map fun v => { options with cacheEnabled := v }
  | "cache_maximum_size" => value.size?.map fun v => { options with cacheMaximumSize := v }
  | "cache_reduction_size" =>
    value.size?.map fun v => { options with cacheReductionSize := v }
  | "optimizer_enabled" => value.flag?.map fun v => { options with optimizerEnabled := v }
  | "execution_mode" =>
    (ExecutionMode.ofDocument? value).map fun v => { options with executionMode := v }
  | "default_functions" => value.flag?.map fun v => { options with defaultFunctions := v }
  | "default_constants" => value.flag?.map fun v => { options with defaultConstants := v }
  | "decimal_separator" =>
    value.character?.map fun v => { options with decimalSeparator := v }
  | _ => some options

/-- Sets several options, one after the other. -/
def setAll? (options : Options) : List (String × Document) → Option Options
  | [] => some options
  | (name, value) :: fields =>
    match options.set? name value with
    | some set => set.setAll? fields
    | none => none

/-- The options that a document describes; no document at all stands for the
defaults. -/
def ofDocument? : Document → Option Options
  | .null => some {}
  | .record fields => setAll? {} fields
  | .list members =>
    if members.length ≤ fieldNames.length then setAll? {} (fieldNames.zip members) else none
  | _ => none

/-- The document of all options. -/
def toDocument (options : Options) : Document :=
  .record
    (fieldNames.zip
      [.flag options.caseSensitive, .flag options.cacheEnabled,
        .integer options.cacheMaximumSize, .integer options.cacheReductionSize,
        .flag options.optimizerEnabled, .text options.executionMode.name,
        .flag options.defaultFunctions, .flag options.defaultConstants,
        .text options.decimalSeparator.toString])

end Options

end FormulaEngine
