import FormulaEngine.Program

/-!
# Formulas

A formula is a tree made ready for calls with variables.  How it runs is a
choice of the execution mode: the tree is evaluated on every call, or it is
turned into a program once.

The functions and constants are not part of a formula.  They are given with
every call, so a formula sees later registrations as far as its mode lets
it.  Every formula carries the number of the build that made it; two
formulas with one number are the same formula.
-/

namespace FormulaEngine

/-- How formulas run. -/
inductive ExecutionMode where
  | interpreted
  | compiled
  deriving DecidableEq

/-- What a formula runs. -/
inductive Executable where
  | interpreted (tree : Tree)
  | compiled (program : Program)

namespace Executable

/-- Makes a tree ready for calls. -/
def ofTree (mode : ExecutionMode) (functions : Functions) (tree : Tree) :
    Except EvaluationError Executable :=
  match mode with
  | .interpreted => .ok (.interpreted tree)
  | .compiled =>
    match Program.ofTree functions tree with
    | .error e => .error e
    | .ok program => .ok (.compiled program)

/-- The value under variables whose names are in canonical form. -/
def run (context : Context) : Executable → Except EvaluationError Decimal
  | .interpreted tree => tree.evaluate context.functions context.vars
  | .compiled program => program.run context

end Executable

/-- A formula that can be called. -/
structure Formula where
  number : Nat
  caseSensitive : Bool
  executable : Executable

namespace Formula

/-- The value of a formula for the given variables. -/
def call (formula : Formula) (functions : Functions) (constants : Constants)
    (vars : Variables) : Except EvaluationError Decimal :=
  formula.executable.run ⟨vars.fold formula.caseSensitive, functions, constants⟩

end Formula

/-- Evaluates a tree once, in the way of the mode. -/
def ExecutionMode.execute (mode : ExecutionMode) (caseSensitive : Bool) (tree : Tree)
    (functions : Functions) (constants : Constants) (vars : Variables) :
    Except EvaluationError Decimal :=
  match Executable.ofTree mode functions tree with
  | .error e => .error e
  | .ok executable => executable.run ⟨vars.fold caseSensitive, functions, constants⟩

end FormulaEngine
