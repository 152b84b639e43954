import FormulaEngine.Decimal.Printer
import FormulaEngine.Operator

/-!
# Formula trees

A formula is a tree of literals, variables, operators and calls.  A call
carries whether the called function is registered as idempotent, that is,
whether equal arguments always give equal results.

Three attributes are computed from a tree.

* `Tree.dataType` is integer for trees whose value is always an integer.
  Division, remainder, powers, calls and variables are never of that type.
* `Tree.dependsOnVariables` holds if some node is a variable.
* `Tree.isIdempotent` holds if every call in the tree is idempotent.

`Tree.equals` compares trees by the values of their literals and by the
attribute of their calls, and `Tree.toText` prints a tree as a formula with
all its brackets.
-/

namespace FormulaEngine

/-- The two static types. -/
inductive DataType where
  | integer
  | decimal
  deriving DecidableEq

/-- Division, remainder and power always give decimals.  Every other
operator gives an integer for two integers. -/
def BinaryOp.resultType : BinaryOp → DataType → DataType → DataType
  | .divide, _, _ | .modulo, _, _ | .power, _, _ => .decimal
  | _, .integer, .integer => .integer
  | _, _, _ => .decimal

/-- A formula. -/
inductive Tree where
  | integer (value : Int64)
  | decimal (value : Decimal)
  | var (name : String)
  | binary (op : BinaryOp) (left right : Tree)
  | negate (argument : Tree)
  | call (name : String) (idempotent : Bool) (arguments : List Tree)

namespace Tree

instance : Inhabited Tree := ⟨.integer 0⟩

/-! ## Attributes -/

/-- Integer and decimal literals. -/
def isLiteral : Tree → Bool
  | .integer _ | .decimal _ => true
  | _ => false

/-- The static type. -/
def dataType : Tree → DataType
  | .integer _ => .integer
  | .decimal _ => .decimal
  | .var _ => .decimal
  | .binary op left right => op.resultType left.dataType right.dataType
  | .negate argument => argument.dataType
  | .call _ _ _ => .decimal

mutual

/-- Whether the tree contains a variable. -/
def dependsOnVariables : Tree → Bool
  | .integer _ => false
  | .decimal _ => false
  | .var _ => true
  | .binary _ left right => left.dependsOnVariables || right.dependsOnVariables
  | .negate argument => argument.dependsOnVariables
  | .call _ _ arguments => anyDependsOnVariables arguments

/-- Whether some tree of a list contains a variable. -/
def anyDependsOnVariables : List Tree → Bool
  | [] => false
  | tree :: trees => tree.dependsOnVariables || anyDependsOnVariables trees

end

mutual

/-- Whether every call in the tree is idempotent. -/
def isIdempotent : Tree → Bool
  | .integer _ => true
  | .decimal _ => true
  | .var _ => true
  | .binary _ left right => left.isIdempotent && right.isIdempotent
  | .negate argument => argument.isIdempotent
  | .call _ idempotent arguments => idempotent && allIdempotent arguments

/-- Whether every call in a list of trees is idempotent. -/
def allIdempotent : List Tree → Bool
  | [] => true
  | tree :: trees => tree.isIdempotent && allIdempotent trees

end

theorem anyDependsOnVariables_eq (trees : List Tree) :
    anyDependsOnVariables trees = trees.any dependsOnVariables := by
  induction trees with
  | nil => rfl
  | cons tree trees ih => rw [anyDependsOnVariables, ih, List.any_cons]

theorem allIdempotent_eq (trees : List Tree) :
    allIdempotent trees = trees.all isIdempotent := by
  induction trees with
  | nil => rfl
  | cons tree trees ih => rw [allIdempotent, ih, List.all_cons]

/-! ## Equality -/

mutual

/-- Two trees of one shape, with literals of one kind and value, and calls
that agree on whether they are idempotent. -/
def equals : Tree → Tree → Bool
  | .integer a, .integer b => a == b
  | .decimal a, .decimal b => a.equals b
  | .var a, .var b => a == b
  | .binary op left right, .binary op' left' right' =>
    op == op' && left.equals left' && right.equals right'
  | .negate a, .negate b => a.equals b
  | .call name idempotent arguments, .call name' idempotent' arguments' =>
    name == name' && allEqual arguments arguments'
      && (idempotent && allIdempotent arguments)
        == (idempotent' && allIdempotent arguments')
  | _, _ => false

/-- `equals` on the members of two lists of one length. -/
def allEqual : List Tree → List Tree → Bool
  | [], [] => true
  | a :: as, b :: bs => a.equals b && allEqual as bs
  | _, _ => false

end

/-! ## Printing -/

mutual

/-- The characters of a printed tree. -/
def toChars : Tree → List Char
  | .integer value => (integerText value.toInt).toList
  | .decimal value => value.toChars
  | .var name => name.toList
  | .binary op left right =>
    '(' :: (left.toChars ++ ' ' :: (op.symbol.toList ++ ' ' :: (right.toChars ++ [')'])))
  | .negate argument => '-' :: argument.toChars
  | .call name _ arguments => name.toList ++ '(' :: (argumentChars arguments ++ [')'])

/-- The characters of printed arguments. -/
def argumentChars : List Tree → List Char
  | [] => []
  | [tree] => tree.toChars
  | tree :: trees => tree.toChars ++ ',' :: ' ' :: argumentChars trees

end

/-- A tree as text: operators in brackets, arguments between commas. -/
def toText (tree : Tree) : String := String.ofList tree.toChars

end Tree

end FormulaEngine
