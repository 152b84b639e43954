import FormulaEngine.Proofs.Assembly.Steps
import FormulaEngine.Proofs.Registry.History
import FormulaEngine.Proofs.Tree.Subtrees
import Mathlib.Algebra.Order.Group.Multiset

/-!
# What the assembly conserves

The assembly never asks whether its tokens make sense as a formula, and accepts
some lists that do not.  Whatever it accepts, it loses no token, takes none
twice and invents nothing.

* The leaves of the tree, read from left to right, are the tokens that are
  operands by themselves, in their order (`Scope.operand?`).
* Its inner nodes are the operators and the names of functions among the tokens
  (`Scope.node?`), each as often as it stands there.  They may come in another
  order.

A reduction moves a node from the waiting ones to the operands and leaves their
leaves in order (`Reduces.leaves_eq`, `Reduces.nodes_eq`).  A token adds itself
(`Takes.leaves_eq`, `Takes.nodes_eq`).  At the end only the tree is left.
-/

namespace FormulaEngine

open Text

/-- An inner node of a tree, without the trees below it. -/
inductive Node where
  | operator (op : Operator)
  | call (name : String) (idempotent : Bool)
  deriving DecidableEq

namespace Tree

/-! ## Leaves and inner nodes -/

/-- Literals and variables. -/
def isLeaf : Tree → Bool
  | .integer _ | .decimal _ | .var _ => true
  | .binary _ _ _ | .negate _ | .call _ _ _ => false

/-- The literals and variables in a tree, from left to right. -/
def leaves (tree : Tree) : List Tree := tree.subtrees.filter isLeaf

/-- The root of a tree, if it is an inner node. -/
def node? : Tree → Option Node
  | .binary op _ _ => some (.operator (.binary op))
  | .negate _ => some (.operator .negate)
  | .call name idempotent _ => some (.call name idempotent)
  | .integer _ | .decimal _ | .var _ => none

/-- The inner nodes of a tree. -/
def nodes (tree : Tree) : List Node := tree.subtrees.filterMap node?

@[simp] theorem leaves_binary (op : BinaryOp) (left right : Tree) :
    (binary op left right).leaves = left.leaves ++ right.leaves := by
  rw [leaves, subtrees, List.filter_cons_of_neg Bool.false_ne_true, List.filter_append]
  rfl

@[simp] theorem leaves_negate (argument : Tree) :
    (negate argument).leaves = argument.leaves := rfl

@[simp] theorem leaves_call (name : String) (idempotent : Bool) (arguments : List Tree) :
    (call name idempotent arguments).leaves = arguments.flatMap leaves := by
  rw [leaves, subtrees, List.filter_cons_of_neg Bool.false_ne_true, allSubtrees_eq,
    List.filter_flatMap]
  rfl

@[simp] theorem nodes_binary (op : BinaryOp) (left right : Tree) :
    (binary op left right).nodes =
      .operator (.binary op) :: (left.nodes ++ right.nodes) := by
  have hroot : node? (binary op left right) = some (.operator (.binary op)) := rfl
  rw [nodes, subtrees, List.filterMap_cons_some hroot, List.filterMap_append]
  rfl

@[simp] theorem nodes_negate (argument : Tree) :
    (negate argument).nodes = .operator .negate :: argument.nodes := rfl

@[simp] theorem nodes_call (name : String) (idempotent : Bool) (arguments : List Tree) :
    (call name idempotent arguments).nodes =
      .call name idempotent :: arguments.flatMap nodes := by
  have hroot : node? (call name idempotent arguments) = some (.call name idempotent) := rfl
  rw [nodes, subtrees, List.filterMap_cons_some hroot, allSubtrees_eq, List.filterMap_flatMap]
  rfl

end Tree

/-! ## What tokens stand for -/

/-- The leaf that a token stands for.  A name that is no function stands for the
value of its constant, or else for a variable with the canonical name. -/
def Scope.operand? (scope : Scope) (token : Token) : Option Tree :=
  match token.kind with
  | .integer value => some (.integer value)
  | .decimal value => some (.decimal value)
  | .identifier name =>
    if (scope.functions.find? name).isSome then none
    else
      match scope.constants.find? name with
      | some entry => some (.decimal entry.content)
      | none => some (.var (canonical scope.caseSensitive name))
  | .operator _ | .leftBracket | .rightBracket | .separator => none

/-- The inner node that a token stands for: an operator, or a call of the
function of that name. -/
def Scope.node? (scope : Scope) (token : Token) : Option Node :=
  match token.kind with
  | .operator op => some (.operator op)
  | .identifier name =>
    (scope.functions.find? name).map fun entry =>
      .call (canonical scope.functions.caseSensitive name) entry.content.isIdempotent
  | .integer _ | .decimal _ | .leftBracket | .rightBracket | .separator => none

namespace Assembly

/-- The node that a waiting one will be. -/
def Pending.node? (functions : Functions) : Pending → Option Node
  | .operator op _ => some (.operator op)
  | .function name _ =>
    (functions.find? name).map fun entry =>
      .call (canonical functions.caseSensitive name) entry.content.isIdempotent
  | .leftBracket _ => none

/-- The leaves of the operands, those that came first at the front. -/
def State.leaves (s : State) : List Tree := s.operands.reverse.flatMap Tree.leaves

/-- The inner nodes of the operands, and those that wait. -/
def State.nodes (functions : Functions) (s : State) : Multiset Node :=
  ↑(s.operands.flatMap Tree.nodes) + ↑(s.pending.filterMap (Pending.node? functions))

section

variable {functions : Functions} {s t : State}

theorem nodes_waiting (operands : List Tree) (waiting : Pending) (pending : List Pending)
    (counts : List Nat) :
    State.nodes functions ⟨operands, waiting :: pending, counts⟩ =
      State.nodes functions ⟨operands, pending, counts⟩ + ↑(waiting.node? functions).toList := by
  rw [State.nodes, State.nodes, add_assoc, List.filterMap_cons]
  cases waiting.node? functions with
  | none => simp
  | some node => simp [Multiset.add_comm]

theorem nodes_operands (trees operands : List Tree) (pending : List Pending)
    (counts : List Nat) :
    State.nodes functions ⟨trees ++ operands, pending, counts⟩ =
      ↑(trees.flatMap Tree.nodes) + State.nodes functions ⟨operands, pending, counts⟩ := by
  rw [State.nodes, State.nodes, List.flatMap_append, ← Multiset.coe_add, add_assoc]

theorem nodes_operand (tree : Tree) (operands : List Tree) (pending : List Pending)
    (counts : List Nat) :
    State.nodes functions ⟨tree :: operands, pending, counts⟩ =
      ↑tree.nodes + State.nodes functions ⟨operands, pending, counts⟩ := by
  have htree : State.nodes functions ⟨[tree] ++ operands, pending, counts⟩ = _ :=
    nodes_operands [tree] operands pending counts
  rwa [List.flatMap_singleton] at htree

/-! ## Reductions -/

/-- The operands of a reduction stand side by side. -/
theorem Reduces.leaves_eq (h : Reduces functions s t) : t.leaves = s.leaves := by
  cases h with
  | negate range => simp [State.leaves]
  | binary op range => simp [State.leaves]
  | call range hfunction hcount => simp [State.leaves]

/-- A reduction takes one node from the waiting ones, and adds it to the
operands. -/
theorem Reduces.nodes_eq (h : Reduces functions s t) :
    t.nodes functions = s.nodes functions := by
  cases h with
  | negate range =>
    rw [nodes_waiting, nodes_operand, nodes_operand, Tree.nodes_negate, ← Multiset.cons_coe,
      ← Multiset.singleton_add]
    show _ = _ + {Node.operator .negate}
    ac_rfl
  | binary op range =>
    rw [nodes_waiting, nodes_operand, nodes_operand, nodes_operand, Tree.nodes_binary,
      ← Multiset.cons_coe, ← Multiset.coe_add, ← Multiset.singleton_add]
    show _ = _ + {Node.operator (.binary op)}
    ac_rfl
  | @call name entry arguments operands pending counts range hfunction hcount =>
    have hnode : Pending.node? functions (.function name range) =
        some (.call entry.name entry.content.isIdempotent) := by
      rw [Pending.node?, hfunction, Registry.name_of_find? hfunction]
      rfl
    -- The arguments lie on the stack with the last one on top.
    have hreverse : (arguments.reverse.flatMap Tree.nodes : Multiset Node) =
        ↑(arguments.flatMap Tree.nodes) :=
      Multiset.coe_eq_coe.mpr ((List.reverse_perm arguments).flatMap_right _)
    rw [nodes_waiting, hnode, nodes_operand, nodes_operands, Tree.nodes_call, hreverse,
      ← Multiset.cons_coe, ← Multiset.singleton_add]
    show _ = _ + {Node.call entry.name entry.content.isIdempotent}
    ac_rfl

theorem ReducesAll.leaves_eq (h : ReducesAll functions s t) : t.leaves = s.leaves := by
  induction h with
  | refl => rfl
  | tail _ hreduces ih => rw [hreduces.leaves_eq, ih]

theorem ReducesAll.nodes_eq (h : ReducesAll functions s t) :
    t.nodes functions = s.nodes functions := by
  induction h with
  | refl => rfl
  | tail _ hreduces ih => rw [hreduces.nodes_eq, ih]

end

/-! ## Tokens -/

section

variable {scope : Scope} {s t : State} {token : Token} {tokens : List Token}

theorem Denotes.operand?_eq {tree : Tree} (h : Denotes scope token tree) :
    scope.operand? token = some tree := by
  cases h with
  | integer _ _ | decimal _ _ => rfl
  | constantName _ hfunction hconstant | variableName _ hfunction hconstant =>
    simp [Scope.operand?, hfunction, hconstant]

theorem Denotes.node?_eq {tree : Tree} (h : Denotes scope token tree) :
    scope.node? token = none := by
  cases h with
  | integer _ _ | decimal _ _ => rfl
  | constantName _ hfunction _ | variableName _ hfunction _ => simp [Scope.node?, hfunction]

/-- An operand is a leaf without inner nodes. -/
theorem Denotes.leaves_eq {tree : Tree} (h : Denotes scope token tree) :
    tree.leaves = [tree] ∧ tree.nodes = [] := by
  cases h <;> exact ⟨rfl, rfl⟩

/-- A token that is an operand adds its leaf at the end. -/
theorem Takes.leaves_eq (h : Takes scope token s t) :
    t.leaves = s.leaves ++ (scope.operand? token).toList := by
  cases h with
  | operand s hdenotes =>
    rw [hdenotes.operand?_eq]
    simp [State.leaves, State.pushOperand, hdenotes.leaves_eq.1]
  | name range s hfunction => simp [State.leaves, Scope.operand?, hfunction]
  | leftBracket range s => simp [State.leaves, State.pushPending, Scope.operand?]
  | rightBracket range hreduces | separator range hreduces =>
    have hleaves := hreduces.leaves_eq
    simpa [State.leaves, Scope.operand?] using hleaves
  | operator op range hreduce =>
    have hleaves := (reducesAll_of_reduceWhile hreduce).1.leaves_eq
    simpa [State.leaves, State.pushPending, Scope.operand?] using hleaves

/-- An operator or the name of a function adds its node. -/
theorem Takes.nodes_eq (h : Takes scope token s t) :
    t.nodes scope.functions = s.nodes scope.functions + ↑(scope.node? token).toList := by
  cases h with
  | operand s hdenotes =>
    rw [hdenotes.node?_eq]
    simp [State.nodes, State.pushOperand, hdenotes.leaves_eq.2]
  | name range s hfunction => exact nodes_waiting _ _ _ _
  | leftBracket range s => exact nodes_waiting _ _ _ _
  | rightBracket range hreduces =>
    rw [← hreduces.nodes_eq, nodes_waiting]
    simp [Pending.node?, Scope.node?]
  | separator range hreduces =>
    rw [← hreduces.nodes_eq]
    exact (add_zero _).symm
  | operator op range hreduce =>
    rw [← (reducesAll_of_reduceWhile hreduce).1.nodes_eq]
    exact nodes_waiting _ _ _ _

/-! ## Runs -/

theorem filterMap_cons_eq {α β : Type} (f : α → Option β) (a : α) (as : List α) :
    (a :: as).filterMap f = (f a).toList ++ as.filterMap f := by
  rw [List.filterMap_cons]
  cases f a <;> rfl

/-- The leaves after a run are those of its tokens, in their order. -/
theorem Runs.leaves_eq (h : Runs scope tokens s t) :
    t.leaves = s.leaves ++ tokens.filterMap scope.operand? := by
  induction h with
  | nil s => simp
  | cons htakes _ ih => rw [ih, htakes.leaves_eq, filterMap_cons_eq, List.append_assoc]

/-- The nodes after a run are those of its tokens. -/
theorem Runs.nodes_eq (h : Runs scope tokens s t) :
    t.nodes scope.functions = s.nodes scope.functions + ↑(tokens.filterMap scope.node?) := by
  induction h with
  | nil s => simp
  | cons htakes _ ih =>
    rw [ih, htakes.nodes_eq, filterMap_cons_eq, ← Multiset.coe_add, add_assoc]

/-- The assembly loses, repeats and invents nothing.  Whatever list of tokens it
accepts, the leaves of the tree are the tokens that stand for leaves, in the
same order, and its inner nodes are the operators and function names. -/
theorem tokens_are_conserved {tree : Tree} (h : Tree.ofTokens scope tokens = .ok tree) :
    tree.leaves = tokens.filterMap scope.operand? ∧
      (tree.nodes : Multiset Node) = ↑(tokens.filterMap scope.node?) := by
  obtain ⟨s, counts, hruns, hreduces⟩ := exists_runs_of_ofTokens h
  constructor
  · have hleaves := hreduces.leaves_eq.trans hruns.leaves_eq
    simpa [State.leaves, State.start] using hleaves
  · have hnodes := hreduces.nodes_eq.trans hruns.nodes_eq
    simpa only [State.nodes, State.start, List.flatMap_singleton, List.flatMap_nil,
      List.filterMap_nil, Multiset.coe_nil, add_zero, zero_add] using hnodes

end

/-- A function `zero` without arguments, a function `f` of any number of them,
and a constant `k`. -/
def zeroAndAny : Scope :=
  ⟨.ofLocked false [("zero", .fixed 0 fun _ => .ok .zero),
      ("f", ⟨.dynamic, false, fun arguments => .ok (arguments.headD .zero)⟩)],
    .ofLocked false [("k", .ofInt64 5)], false⟩

/-- The tokens `F(K, zero(), -X) 2 *`, which are no formula. -/
def shiftedTokens : List Token :=
  placed [.identifier "F", .leftBracket, .identifier "K", .separator, .identifier "zero",
    .leftBracket, .rightBracket, .separator, .operator .negate, .identifier "X", .rightBracket,
    .integer 2, .operator (.binary .multiply)]

/-- They are accepted like `K * F(zero(), -X, 2)`: the call takes the three
operands before the operator, and leaves its own first argument to it. -/
def shiftedTree : Tree :=
  .binary .multiply (.decimal (.ofInt64 5))
    (.call "f" false [.call "zero" true [], .negate (.var "x"), .integer 2])

theorem tokens_are_conserved_of_shifted :
    Tree.ofTokens zeroAndAny shiftedTokens = .ok shiftedTree ∧
      shiftedTree.leaves = shiftedTokens.filterMap zeroAndAny.operand? ∧
      (shiftedTree.nodes : Multiset Node) = ↑(shiftedTokens.filterMap zeroAndAny.node?) ∧
      shiftedTokens.filterMap zeroAndAny.operand? =
        [.decimal (.ofInt64 5), .var "x", .integer 2] ∧
      shiftedTokens.filterMap zeroAndAny.node? =
        [.call "f" false, .call "zero" true, .operator .negate,
          .operator (.binary .multiply)] := by
  have hok : Tree.ofTokens zeroAndAny shiftedTokens = .ok shiftedTree := by
    with_unfolding_all rfl
  obtain ⟨hleaves, hnodes⟩ := tokens_are_conserved hok
  exact ⟨hok, hleaves, hnodes, by with_unfolding_all rfl, by with_unfolding_all rfl⟩

end Assembly

end FormulaEngine
