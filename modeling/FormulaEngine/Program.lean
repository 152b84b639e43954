import FormulaEngine.Evaluation

/-!
# Programs

A program is a formula tree prepared for many runs.  Literals are decimals
already, and the calls of locked functions hold the function itself.  The
calls of functions that may be replaced hold the name, and look it up in
every run.

A program is made from a tree if every called function is registered.  A
run looks a variable up among the given values first and among the
constants then.
-/

namespace FormulaEngine

/-- A formula that is ready to run. -/
inductive Program where
  | literal (value : Decimal)
  | variable (name : String)
  | binary (op : BinaryOp) (left right : Program)
  | negate (argument : Program)
  | callNamed (name : String) (arguments : List Program)
  | callBound (run : Callable) (arguments : List Program)

/-- What a program may look up while it runs. -/
structure Context where
  vars : Variables
  functions : Functions
  constants : Constants

namespace Program

/-- A call of a registered function. -/
def call (name : String) (entry : Entry Function) (arguments : List Program) : Program :=
  if entry.isOverwritable then .callNamed name arguments
  else .callBound entry.content.run arguments

mutual

/-- The program of a tree. -/
def ofTree (functions : Functions) : Tree → Except EvaluationError Program
  | .integer value => .ok (.literal (.ofInt64 value))
  | .decimal value => .ok (.literal value)
  | .var name => .ok (.variable name)
  | .binary op left right =>
    match ofTree functions left with
    | .error e => .error e
    | .ok left' =>
      match ofTree functions right with
      | .error e => .error e
      | .ok right' => .ok (.binary op left' right')
  | .negate argument =>
    match ofTree functions argument with
    | .error e => .error e
    | .ok argument' => .ok (.negate argument')
  | .call name _ arguments =>
    match functions.find? name with
    | none => .error (.functionNotDefined name)
    | some entry =>
      match ofTrees functions arguments with
      | .error e => .error e
      | .ok arguments' => .ok (call name entry arguments')

/-- The programs of a list of trees. -/
def ofTrees (functions : Functions) : List Tree → Except EvaluationError (List Program)
  | [] => .ok []
  | tree :: trees =>
    match ofTree functions tree with
    | .error e => .error e
    | .ok program =>
      match ofTrees functions trees with
      | .error e => .error e
      | .ok programs => .ok (program :: programs)

end

/-- The value of a name: a variable, else a constant. -/
def lookUp (context : Context) (name : String) : Except EvaluationError Decimal :=
  match context.vars.find? name with
  | some value => .ok value
  | none =>
    match context.constants.find? name with
    | some entry => .ok entry.content
    | none => .error (.variableNotDefined name)

mutual

/-- The result of a run. -/
def run (context : Context) : Program → Except EvaluationError Decimal
  | .literal value => .ok value
  | .variable name => lookUp context name
  | .binary op left right =>
    match run context left with
    | .error e => .error e
    | .ok a =>
      match run context right with
      | .error e => .error e
      | .ok b => op.apply a b
  | .negate argument =>
    match run context argument with
    | .error e => .error e
    | .ok a => .ok a.negate
  | .callNamed name arguments =>
    match runAll context arguments with
    | .error e => .error e
    | .ok values =>
      match context.functions.find? name with
      | none => .error (.functionNotDefined name)
      | some entry => entry.content.run values
  | .callBound callable arguments =>
    match runAll context arguments with
    | .error e => .error e
    | .ok values => callable values

/-- The results of a list of programs. -/
def runAll (context : Context) : List Program → Except EvaluationError (List Decimal)
  | [] => .ok []
  | program :: programs =>
    match run context program with
    | .error e => .error e
    | .ok value =>
      match runAll context programs with
      | .error e => .error e
      | .ok values => .ok (value :: values)

end

end Program

end FormulaEngine
