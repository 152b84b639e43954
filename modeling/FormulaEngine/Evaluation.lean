import FormulaEngine.Decimal.Arithmetic
import FormulaEngine.Decimal.Binary
import FormulaEngine.Decimal.Quotient
import FormulaEngine.Function
import FormulaEngine.Tree
import FormulaEngine.Variables

/-!
# Evaluation

The value of a formula tree under a table of functions and values for its
variables.  Operands and arguments are evaluated from left to right, all of
them, and the first error is the result.  Conditions count every number but
zero as true, and comparisons and logical operators give one or zero.
-/

namespace FormulaEngine

/-- A power, computed on floats. -/
def powerOf (a b : Decimal) : Except EvaluationError Decimal :=
  let result := a.toFloat.pow b.toFloat
  if result.isFinite then orOverflow (Decimal.ofFloat? result)
  else .error (.nonFiniteResult "^")

/-- What a binary operator does with its operands. -/
def BinaryOp.apply (op : BinaryOp) (a b : Decimal) : Except EvaluationError Decimal :=
  match op with
  | .add => orOverflow (a.add? b)
  | .subtract => orOverflow (a.subtract? b)
  | .multiply => orOverflow (a.multiply? b)
  | .divide => if b.isZero then .error .zeroDivision else orOverflow (a.divide? b)
  | .modulo => if b.isZero then .error .zeroDivision else orOverflow (a.remainder? b)
  | .power => powerOf a b
  | .and => .ok (.ofBool (a.isTruthy && b.isTruthy))
  | .or => .ok (.ofBool (a.isTruthy || b.isTruthy))
  | .lessThan => .ok (.ofBool (a.lessThan b))
  | .lessOrEqual => .ok (.ofBool (a.atMost b))
  | .greaterThan => .ok (.ofBool (b.lessThan a))
  | .greaterOrEqual => .ok (.ofBool (b.atMost a))
  | .equal => .ok (.ofBool (a.equals b))
  | .notEqual => .ok (.ofBool (!a.equals b))

namespace Tree

mutual

/-- The value of a tree. -/
def evaluate (functions : Functions) (vars : Variables) :
    Tree → Except EvaluationError Decimal
  | .integer value => .ok (.ofInt64 value)
  | .decimal value => .ok value
  | .var name =>
    match vars.find? name with
    | some value => .ok value
    | none => .error (.variableNotDefined name)
  | .binary op left right =>
    match evaluate functions vars left with
    | .error e => .error e
    | .ok a =>
      match evaluate functions vars right with
      | .error e => .error e
      | .ok b => op.apply a b
  | .negate argument =>
    match evaluate functions vars argument with
    | .error e => .error e
    | .ok a => .ok a.negate
  | .call name _ arguments =>
    match functions.find? name with
    | none => .error (.functionNotDefined name)
    | some entry =>
      match evaluateAll functions vars arguments with
      | .error e => .error e
      | .ok values => entry.content.run values

/-- The values of a list of trees. -/
def evaluateAll (functions : Functions) (vars : Variables) :
    List Tree → Except EvaluationError (List Decimal)
  | [] => .ok []
  | tree :: trees =>
    match evaluate functions vars tree with
    | .error e => .error e
    | .ok value =>
      match evaluateAll functions vars trees with
      | .error e => .error e
      | .ok values => .ok (value :: values)

end

end Tree

end FormulaEngine
