import FormulaEngine.Builtin
import FormulaEngine.Cache
import FormulaEngine.Failure
import FormulaEngine.Formula
import FormulaEngine.Options
import FormulaEngine.Token.Reader
import FormulaEngine.Tree.Folding

/-!
# The engine

An engine evaluates texts.  It holds the functions and constants that the
texts may use, and a cache of the formulas that it has built.

`Engine.calculate` evaluates a text once; `Engine.build` makes a formula
that can be called again and again, with some constants put in place of
their names.  Both share the cache: the formula of a text without such
constants is built once and then found under the text itself.

A request returns its answer together with the engine after it.  A formula
sees the functions and constants of the engine at the time of the call.
-/

namespace FormulaEngine

open Text

/-- An evaluator of texts.  `builds` counts the formulas that were built. -/
structure Engine where
  options : Options
  functions : Functions
  constants : Constants
  cache : Cache Formula
  builds : Nat

namespace Engine

/-- An engine with the given options, and the number that `random` draws. -/
def new (options : Options) (draw : Decimal) : Engine where
  options := options
  functions :=
    if options.defaultFunctions then Builtin.functionRegistry options.caseSensitive draw
    else .empty options.caseSensitive
  constants :=
    if options.defaultConstants then Builtin.constantRegistry options.caseSensitive
    else .empty options.caseSensitive
  cache := .new options.cacheMaximumSize options.cacheReductionSize
  builds := 0

/-! ## Building formulas -/

/-- The tree of a text, with constants put in place of their names. -/
def parse (engine : Engine) (text : String) (bound : Constants) : Except Failure Tree :=
  match tokenize ⟨engine.options.decimalSeparator⟩ text with
  | .error e => .error (.of text (.lexical e))
  | .ok tokens =>
    match Tree.ofTokens ⟨engine.functions, bound, engine.options.caseSensitive⟩ tokens with
    | .error e => .error (.of text (.parse e))
    | .ok tree =>
      if engine.options.optimizerEnabled then
        match tree.simplify engine.functions with
        | .error e => .error (.of text (.evaluation e))
        | .ok simplified => .ok simplified
      else .ok tree

/-- Builds the formula of a text.  A text without a tree is not counted as a
build. -/
def construct (engine : Engine) (text : String) (bound : Constants) :
    Except Failure Formula × Engine :=
  match engine.parse text bound with
  | .error failure => (.error failure, engine)
  | .ok tree =>
    let counted := { engine with builds := engine.builds + 1 }
    match Executable.ofTree engine.options.executionMode engine.functions tree with
    | .error e => (.error (.of text (.evaluation e)), counted)
    | .ok executable =>
      (.ok ⟨engine.builds, engine.options.caseSensitive, executable⟩, counted)

/-- The formula of a text, from the cache if it is there under `key`. -/
def formula (engine : Engine) (text key : String) (bound : Constants) :
    Except Failure Formula × Engine :=
  if engine.options.cacheEnabled then
    match engine.cache.request key with
    | (.value formula, cache) => (.ok formula, { engine with cache := cache })
    | (.vacant installed, cache) =>
      match { engine with cache := cache }.construct text bound with
      | (.ok formula, after) =>
        (.ok formula, { after with cache := after.cache.fill key installed formula })
      | (.error failure, after) =>
        (.error failure, { after with cache := after.cache.abandon key installed })
  else engine.construct text bound

/-- A constant in a cache key. -/
def keyPart (entry : Entry Decimal) : String := entry.name ++ ":" ++ entry.content.toText

/-- The key of a text with bound constants: the text alone, or the text and
the constants in the order of their names. -/
def cacheKey (text : String) (bound : Constants) : String :=
  if bound.isEmpty then text
  else
    let sorted := bound.entries.mergeSort fun a b => decide (a.name ≤ b.name)
    text ++ "@" ++ ",".intercalate (sorted.map keyPart)

/-- A registry of constants with the given values. -/
def bindAll (bound : Constants) : List (String × Decimal) → Except RegistryError Constants
  | [] => .ok bound
  | (name, value) :: rest =>
    match bound.register name value true with
    | .error e => .error e
    | .ok bound => bindAll bound rest

/-- The registry of the constants to put in place of their names. -/
def bindConstants (caseSensitive : Bool) (constants : Variables) :
    Except ArgumentError Constants :=
  match constants.clash? caseSensitive with
  | some name => .error (.duplicateName name)
  | none =>
    match bindAll (.empty caseSensitive) (constants.fold caseSensitive).bindings with
    | .error e => .error (.registry e)
    | .ok bound => .ok bound

/-- A formula that can be called many times.  The constants are put in place
of their names. -/
def build (engine : Engine) (text : String) (constants : Option Variables) :
    Except Failure Formula × Engine :=
  if isBlank text then (.error (.of text (.argument .blankFormula)), engine)
  else
    match bindConstants engine.options.caseSensitive (constants.getD .empty) with
    | .error e => (.error (.of text (.argument e)), engine)
    | .ok bound => engine.formula text (cacheKey text bound) bound

/-! ## Evaluating -/

/-- Calls a formula with the functions and constants of the engine. -/
def call (engine : Engine) (formula : Formula) (vars : Variables) :
    Except EvaluationError Decimal :=
  formula.call engine.functions engine.constants vars

/-- Refuses a variable with the name of a locked constant or of a function. -/
def checkName (engine : Engine) (name : String) : Except ArgumentError Unit :=
  match engine.constants.canonicalName name with
  | .error e => .error (.registry e)
  | .ok canonical =>
    let reserved :=
      match engine.constants.entry? canonical with
      | some entry => !entry.isOverwritable
      | none => false
    if reserved then .error (.reservedConstantName name)
    else if (engine.functions.find? name).isSome then .error (.functionNameAsVariable name)
    else .ok ()

/-- Checks names one after the other. -/
def checkNames (engine : Engine) : List String → Except ArgumentError Unit
  | [] => .ok ()
  | name :: names =>
    match engine.checkName name with
    | .error e => .error e
    | .ok () => engine.checkNames names

/-- The variables together with the constants whose names they leave free. -/
def withConstants (constants : Constants) (vars : Variables) : Variables :=
  constants.entries.foldl (fun all entry => all.insertNew entry.name entry.content) vars

/-- The variables that a text is evaluated with, unless some name is
refused. -/
def acceptVariables (engine : Engine) (vars : Variables) : Except ArgumentError Variables :=
  match vars.clash? engine.options.caseSensitive with
  | some name => .error (.duplicateName name)
  | none =>
    let folded := vars.fold engine.options.caseSensitive
    match engine.checkNames folded.names with
    | .error e => .error e
    | .ok () => .ok (withConstants engine.constants folded)

/-- The value of a text.  The constants of the engine are visible unless a
variable has their name, which only overwritable ones allow. -/
def calculate (engine : Engine) (text : String) (vars : Variables) :
    Except Failure Decimal × Engine :=
  if isBlank text then (.error (.of text (.argument .blankFormula)), engine)
  else
    match engine.acceptVariables vars with
    | .error e => (.error (.of text (.argument e)), engine)
    | .ok accepted =>
      match engine.formula text text (.empty engine.options.caseSensitive) with
      | (.error failure, after) => (.error failure, after)
      | (.ok formula, after) =>
        match after.call formula accepted with
        | .error e => (.error (.of text (.evaluation e)), after)
        | .ok value => (.ok value, after)

/-! ## Registering -/

/-- The failure of a registration under a name. -/
def registrationFailure (name : String) (error : RegistryError) : Failure :=
  .of name (.argument (.registry error))

/-- Registers a function. -/
def registerFunction (engine : Engine) (name : String) (function : Function)
    (isOverwritable : Bool) : Except RegistryError Engine :=
  match engine.functions.register name function isOverwritable with
  | .error e => .error e
  | .ok functions => .ok { engine with functions := functions }

/-- Registers a constant. -/
def registerConstant (engine : Engine) (name : String) (value : Decimal)
    (isOverwritable : Bool) : Except RegistryError Engine :=
  match engine.constants.register name value isOverwritable with
  | .error e => .error e
  | .ok constants => .ok { engine with constants := constants }

end Engine

end FormulaEngine
