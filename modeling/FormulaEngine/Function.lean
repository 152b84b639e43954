import FormulaEngine.Decimal.Basic
import FormulaEngine.Registry

/-!
# Functions

A function of a formula takes a list of decimals and returns a decimal or
an evaluation error.  Its arity tells how many arguments a formula has to
write, and its idempotency whether a call may be evaluated ahead of time.
-/

namespace FormulaEngine

/-- Why a formula has no value. -/
inductive EvaluationError where
  | variableNotDefined (name : String)
  | functionNotDefined (name : String)
  | zeroDivision
  | overflow
  | nonFiniteResult (name : String)
  | arityMismatch (expected got : Nat)
  | emptyArguments (name : String)
  deriving DecidableEq

/-- The wording of an evaluation error. -/
def EvaluationError.message : EvaluationError → String
  | .variableNotDefined name => "The variable \"" ++ name ++ "\" used is not defined."
  | .functionNotDefined name => "The function \"" ++ name ++ "\" is not defined."
  | .zeroDivision => "Attempted to divide by zero."
  | .overflow => "The result is outside the representable range."
  | .nonFiniteResult name => "\"" ++ name ++ "\" did not produce a finite number."
  | .arityMismatch expected got =>
    "Expected " ++ toString expected ++ " arguments but got " ++ toString got ++ "."
  | .emptyArguments name =>
    "The function \"" ++ name ++ "\" requires at least one argument."

/-- A result that has to lie in the range of decimals. -/
def orOverflow : Option Decimal → Except EvaluationError Decimal
  | some d => .ok d
  | none => .error .overflow

/-- What a function does with its arguments. -/
abbrev Callable := List Decimal → Except EvaluationError Decimal

/-- How many arguments a function takes. -/
inductive Arity where
  | fixed (count : Nat)
  | dynamic
  deriving DecidableEq

/-- The number of parameters of a function that has one. -/
def Arity.count? : Arity → Option Nat
  | .fixed count => some count
  | .dynamic => none

/-- A function that formulas can call. -/
structure Function where
  arity : Arity
  isIdempotent : Bool
  run : Callable

/-- A callable that wants exactly `count` arguments. -/
def Callable.exactly (count : Nat) (run : Callable) : Callable := fun arguments =>
  if arguments.length = count then run arguments
  else .error (.arityMismatch count arguments.length)

/-- An idempotent function of `count` arguments. -/
def Function.fixed (count : Nat) (run : Callable) : Function :=
  ⟨.fixed count, true, Callable.exactly count run⟩

/-- An idempotent function of any number of arguments. -/
def Function.dynamic (run : Callable) : Function := ⟨.dynamic, true, run⟩

/-- The functions that a formula can call. -/
abbrev Functions := Registry .function Function

/-- The constants that a formula can use. -/
abbrev Constants := Registry .constant Decimal

end FormulaEngine
