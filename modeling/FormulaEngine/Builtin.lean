import FormulaEngine.Decimal.Arithmetic
import FormulaEngine.Decimal.Binary
import FormulaEngine.Decimal.Quotient
import FormulaEngine.Function

/-!
# Built-in functions and constants

The functions that every engine knows unless its options say otherwise.
All of them are locked.

The trigonometric functions, logarithms and the square root are computed on
binary floats.  Rounding, the conditionals and the aggregates are exact up
to the rounding of sums and quotients.

`random` is the only function that is not idempotent.  The number that it
draws is a parameter of the table, so that everything stated of the table
holds for every draw.
-/

namespace FormulaEngine.Builtin

/-- The decimal of a float, or the error that `name` did not give a finite
number. -/
def fromFloat (name : String) (x : Float) : Except EvaluationError Decimal :=
  match Decimal.ofFloat? x with
  | some d => .ok d
  | none => .error (.nonFiniteResult name)

/-! ## Shapes of functions -/

/-- A function of one argument that is computed on floats. -/
def onFloat (name : String) (f : Float → Float) : String × Function :=
  (name, .fixed 1 fun
    | [x] => fromFloat name (f x.toFloat)
    | arguments => .error (.arityMismatch 1 arguments.length))

/-- A function of one decimal. -/
def unary (name : String) (f : Decimal → Decimal) : String × Function :=
  (name, .fixed 1 fun
    | [x] => .ok (f x)
    | arguments => .error (.arityMismatch 1 arguments.length))

/-- A choice between two values by a comparison of two others. -/
def choice (name : String) (holds : Decimal → Decimal → Bool) : String × Function :=
  (name, .fixed 4 fun
    | [a, b, yes, no] => .ok (if holds a b then yes else no)
    | arguments => .error (.arityMismatch 4 arguments.length))

/-- A function of any positive number of arguments. -/
def aggregate (name : String) (f : Decimal → List Decimal → Except EvaluationError Decimal) :
    String × Function :=
  (name, .dynamic fun
    | [] => .error (.emptyArguments name)
    | x :: xs => f x xs)

/-! ## Aggregates -/

/-- The greatest of some numbers; the last one of several. -/
def maximum (x : Decimal) (xs : List Decimal) : Decimal := xs.foldl Decimal.max x

/-- The smallest of some numbers; the first one of several. -/
def minimum (x : Decimal) (xs : List Decimal) : Decimal := xs.foldl Decimal.min x

/-- The sum of some numbers, added from the left. -/
def sumFrom (start : Decimal) : List Decimal → Option Decimal
  | [] => some start
  | x :: xs =>
    match start.add? x with
    | some sum => sumFrom sum xs
    | none => none

/-- The quotient of a number and a count. -/
def divideByCount? (sum : Decimal) (count : Nat) : Option Decimal :=
  match Decimal.ofNat? count with
  | some divisor => sum.divide? divisor
  | none => none

/-- The sum of some numbers, divided by their count. -/
def average? (xs : List Decimal) : Option Decimal :=
  match sumFrom .zero xs with
  | some sum => divideByCount? sum xs.length
  | none => none

/-- Some numbers in ascending order. -/
def ascending (xs : List Decimal) : List Decimal := xs.mergeSort Decimal.atMost

/-- The middle number of an odd count of numbers, or half the sum of the two
middle ones. -/
def median? (xs : List Decimal) : Option Decimal :=
  let sorted := ascending xs
  let middle := sorted.length / 2
  if sorted.length % 2 = 1 then sorted[middle]?
  else
    match sorted[middle - 1]?, sorted[middle]? with
    | some low, some high =>
      match low.add? high with
      | some sum => divideByCount? sum 2
      | none => none
    | _, _ => none

/-! ## The tables -/

/-- The functions computed on floats. -/
def floatFunctions : List (String × Function) :=
  [onFloat "sin" Float.sin,
    onFloat "cos" Float.cos,
    onFloat "csc" fun x => 1 / x.sin,
    onFloat "sec" fun x => 1 / x.cos,
    onFloat "asin" Float.asin,
    onFloat "acos" Float.acos,
    onFloat "tan" Float.tan,
    onFloat "cot" fun x => 1 / x.tan,
    onFloat "atan" Float.atan,
    onFloat "acot" fun x => (1 / x).atan,
    onFloat "loge" Float.log,
    onFloat "log10" Float.log10,
    onFloat "sqrt" Float.sqrt,
    ("logn", .fixed 2 fun
      | [x, base] => fromFloat "logn" (x.toFloat.log / base.toFloat.log)
      | arguments => .error (.arityMismatch 2 arguments.length))]

/-- The functions that round to an integer or drop the sign. -/
def roundingFunctions : List (String × Function) :=
  [unary "abs" Decimal.abs,
    unary "ceiling" Decimal.ceiling,
    unary "floor" Decimal.floor,
    unary "truncate" Decimal.truncate,
    unary "round" Decimal.round]

/-- The functions that choose one of their arguments by a condition. -/
def conditionalFunctions : List (String × Function) :=
  [("if", .fixed 3 fun
      | [condition, yes, no] => .ok (if condition.isTruthy then yes else no)
      | arguments => .error (.arityMismatch 3 arguments.length)),
    choice "ifless" Decimal.lessThan,
    choice "ifmore" fun a b => b.lessThan a,
    choice "ifequal" Decimal.equals]

/-- The functions of any number of arguments. -/
def aggregateFunctions : List (String × Function) :=
  [aggregate "max" fun x xs => .ok (maximum x xs),
    aggregate "min" fun x xs => .ok (minimum x xs),
    aggregate "avg" fun x xs => orOverflow (average? (x :: xs)),
    aggregate "median" fun x xs => orOverflow (median? (x :: xs))]

/-- The function without arguments that gives `draw`. -/
def randomFunction (draw : Decimal) : String × Function :=
  ("random", ⟨.fixed 0, false, fun _ => .ok draw⟩)

/-- All built-in functions, with the number that `random` draws. -/
def functions (draw : Decimal) : List (String × Function) :=
  floatFunctions ++ roundingFunctions ++ conditionalFunctions ++ aggregateFunctions
    ++ [randomFunction draw]

/-- Euler's number to 28 places. -/
def eulerNumber : Decimal :=
  ⟨false, 27182818284590452353602874714, 28, by decide, Decimal.greatest_scale_le⟩

/-- The circle number to 28 places. -/
def circleNumber : Decimal :=
  ⟨false, 31415926535897932384626433833, 28, by decide, Decimal.greatest_scale_le⟩

/-- All built-in constants. -/
def constants : List (String × Decimal) := [("e", eulerNumber), ("pi", circleNumber)]

/-- A registry of the built-in functions. -/
def functionRegistry (caseSensitive : Bool) (draw : Decimal) : Functions :=
  .ofLocked caseSensitive (functions draw)

/-- A registry of the built-in constants. -/
def constantRegistry (caseSensitive : Bool) : Constants :=
  .ofLocked caseSensitive constants

end FormulaEngine.Builtin
