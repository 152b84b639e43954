import FormulaEngine.Evaluation

/-!
# Constant folding

A subtree that is idempotent and has no variables can be evaluated once,
ahead of time.  `Tree.simplify` replaces such subtrees by their values.  It
looks for them below the operators `+ - * / ^` and in the arguments of
calls; comparisons and logical operators that depend on a variable keep
their operands as written.

A product with a factor that became a zero decimal is zero, whatever the
other factor is.

A subtree without a value, such as `1 / 0`, makes the whole simplification
fail with its error.
-/

namespace FormulaEngine.Tree

/-- Whether a tree is evaluated ahead of time. -/
def isFoldable (tree : Tree) : Bool :=
  !tree.isLiteral && !tree.dependsOnVariables && tree.isIdempotent

/-- A decimal literal that is zero. -/
def isZeroDecimal : Tree → Bool
  | .decimal value => value.isZero
  | _ => false

/-- A product of simplified factors. -/
def product (left right : Tree) : Tree :=
  if left.isZeroDecimal || right.isZeroDecimal then .decimal .zero
  else .binary .multiply left right

/-- The operators below which constant parts are looked for. -/
def descendsInto : BinaryOp → Bool
  | .add | .subtract | .multiply | .divide | .power => true
  | _ => false

/-- An operator on simplified operands. -/
def rebuild (op : BinaryOp) (left right : Tree) : Tree :=
  match op with
  | .multiply => product left right
  | _ => .binary op left right

mutual

/-- The tree with its constant parts evaluated. -/
def simplify (functions : Functions) (tree : Tree) : Except EvaluationError Tree :=
  if tree.isFoldable then
    match tree.evaluate functions .empty with
    | .error e => .error e
    | .ok value => .ok (.decimal value)
  else
    match tree with
    | .binary op left right =>
      if descendsInto op then
        match simplify functions left with
        | .error e => .error e
        | .ok left' =>
          match simplify functions right with
          | .error e => .error e
          | .ok right' => .ok (rebuild op left' right')
      else .ok (.binary op left right)
    | .call name idempotent arguments =>
      match simplifyAll functions arguments with
      | .error e => .error e
      | .ok arguments' => .ok (.call name (idempotent && allIdempotent arguments) arguments')
    | other => .ok other

/-- The trees of a list with their constant parts evaluated. -/
def simplifyAll (functions : Functions) (trees : List Tree) :
    Except EvaluationError (List Tree) :=
  match trees with
  | [] => .ok []
  | tree :: trees =>
    match simplify functions tree with
    | .error e => .error e
    | .ok tree' =>
      match simplifyAll functions trees with
      | .error e => .error e
      | .ok trees' => .ok (tree' :: trees')

end

end FormulaEngine.Tree
