/-!
# Operators

The binary operators, the unary minus, and how strongly each one binds.
Only the four basic operations of arithmetic associate to the left; a chain
of any other operators of one strength groups from the right.

An operator has two spellings: `Operator.symbol` names it in messages about
tokens, and `BinaryOp.symbol` is how a formula tree prints it.
-/

namespace FormulaEngine

/-- The operators with two operands. -/
inductive BinaryOp where
  | add
  | subtract
  | multiply
  | divide
  | modulo
  | power
  | and
  | or
  | lessThan
  | lessOrEqual
  | greaterThan
  | greaterOrEqual
  | equal
  | notEqual
  deriving DecidableEq

/-- The spelling of a binary operator in a printed tree. -/
def BinaryOp.symbol : BinaryOp → String
  | .add => "+"
  | .subtract => "-"
  | .multiply => "*"
  | .divide => "/"
  | .modulo => "%"
  | .power => "^"
  | .and => "&&"
  | .or => "||"
  | .lessThan => "<"
  | .lessOrEqual => "<="
  | .greaterThan => ">"
  | .greaterOrEqual => ">="
  | .equal => "=="
  | .notEqual => "!="

/-- The operators that a formula can contain. -/
inductive Operator where
  | binary (op : BinaryOp)
  | negate
  deriving DecidableEq

namespace Operator

/-- Binding strength; the stronger operator takes its operands first. -/
def precedence : Operator → Nat
  | .binary .and | .binary .or => 1
  | .binary .lessThan | .binary .lessOrEqual | .binary .greaterThan
  | .binary .greaterOrEqual | .binary .equal | .binary .notEqual => 2
  | .binary .add | .binary .subtract => 3
  | .binary .multiply | .binary .divide | .binary .modulo => 4
  | .binary .power => 5
  | .negate => 6

/-- Whether a chain of operators of this kind groups from the left. -/
def isLeftAssociative : Operator → Bool
  | .binary .add | .binary .subtract | .binary .multiply | .binary .divide => true
  | _ => false

/-- The name of an operator in messages. -/
def symbol : Operator → String
  | .binary .add => "+"
  | .binary .subtract => "-"
  | .binary .multiply => "*"
  | .binary .divide => "/"
  | .binary .modulo => "%"
  | .binary .power => "^"
  | .binary .and => "&"
  | .binary .or => "|"
  | .binary .lessThan => "<"
  | .binary .lessOrEqual => "≤"
  | .binary .greaterThan => ">"
  | .binary .greaterOrEqual => "≥"
  | .binary .equal => "="
  | .binary .notEqual => "≠"
  | .negate => "_"

/-- Whether an operator on top of the waiting ones takes its operands before
`next` is put on top of it. -/
def yieldsTo (waiting next : Operator) : Bool :=
  (next.isLeftAssociative && decide (next.precedence ≤ waiting.precedence))
    || decide (next.precedence < waiting.precedence)

end Operator

end FormulaEngine
