import FormulaEngine.Proofs.Evaluation.Lookup
import FormulaEngine.Proofs.Tree.Names

/-!
# Constants in place of variables

The assembly puts the bound constants in place of their names while it reads
them.  `Tree.substitute` does that afterwards, to a finished tree.

* `valueUnder_substitute`: the value is that of the old tree under a lookup
  that asks the constants first.
* `toOption_ofTokens`: a list of tokens is a tree with bound constants exactly
  if it is one without them, and the one is the other after the substitution.

The three stacks go through the same steps in both assemblies, since no step
asks what an operand is (`acceptAll_substitute`).  Only the error for a formula
with too many operands does.
-/

namespace FormulaEngine

open Text

/-- A lookup that asks the bound constants first. -/
def Lookup.after (bound : Constants) (lookup : Lookup) : Lookup := fun name =>
  match bound.find? name with
  | some entry => .ok entry.content
  | none => lookup name

namespace Tree

/-! ## Trees -/

mutual

/-- The tree with constants in place of the variables of their names. -/
def substitute (bound : Constants) : Tree → Tree
  | .integer value => .integer value
  | .decimal value => .decimal value
  | .var name =>
    match bound.find? name with
    | some entry => .decimal entry.content
    | none => .var name
  | .binary op left right => .binary op (left.substitute bound) (right.substitute bound)
  | .negate argument => .negate (argument.substitute bound)
  | .call name idempotent arguments => .call name idempotent (substituteAll bound arguments)

/-- The trees of a list with constants in place of variables. -/
def substituteAll (bound : Constants) : List Tree → List Tree
  | [] => []
  | tree :: trees => tree.substitute bound :: substituteAll bound trees

end

theorem substituteAll_eq (bound : Constants) (trees : List Tree) :
    substituteAll bound trees = trees.map (substitute bound) := by
  induction trees with
  | nil => rfl
  | cons tree trees ih => rw [substituteAll, ih, List.map_cons]

/-- The value after a substitution. -/
theorem valueUnder_substitute (bound : Constants) (functions : Functions) (lookup : Lookup)
    (tree : Tree) :
    (tree.substitute bound).valueUnder functions lookup =
      tree.valueUnder functions (lookup.after bound) := by
  induction tree with
  | integer _ | decimal _ => rfl
  | var name =>
    rw [substitute, valueUnder, Lookup.after]
    cases bound.find? name <;> rfl
  | binary op left right ihl ihr => rw [substitute, valueUnder, valueUnder, ihl, ihr]
  | negate argument ih => rw [substitute, valueUnder, valueUnder, ih]
  | call name idempotent arguments ih =>
    have harguments : valuesUnder functions lookup (substituteAll bound arguments) =
        valuesUnder functions (lookup.after bound) arguments := by
      rw [substituteAll_eq]
      refine valuesUnder_congr (List.forall₂_map_left_iff.mpr (List.forall₂_same.mpr ih))
    rw [substitute, valueUnder, valueUnder, harguments]

end Tree

namespace Assembly

/-! ## Steps -/

/-- The state with constants in place of the variables in its operands. -/
def State.substitute (bound : Constants) (s : State) : State :=
  { s with operands := s.operands.map (Tree.substitute bound) }

variable (bound : Constants)

theorem reduceOperator_substitute (op : Operator) (range : Range) (s : State) :
    reduceOperator op range (s.substitute bound) =
      (reduceOperator op range s).map (State.substitute bound) := by
  obtain ⟨operands, pending, counts⟩ := s
  unfold reduceOperator
  cases op with
  | negate => cases operands <;> rfl
  | binary op =>
    cases operands with
    | nil => rfl
    | cons right operands => cases operands <;> rfl

theorem reduceFunction_substitute (functions : Functions) (name : String) (range : Range)
    (s : State) :
    reduceFunction functions name range (s.substitute bound) =
      (reduceFunction functions name range s).map (State.substitute bound) := by
  obtain ⟨operands, pending, counts⟩ := s
  unfold reduceFunction State.substitute
  cases functions.find? name with
  | none => rfl
  | some entry =>
    dsimp only
    rw [List.length_map]
    split
    · rfl
    · rw [← List.map_take, ← List.map_drop, ← List.map_reverse]
      dsimp only [Except.map]
      rw [List.map_cons, Tree.substitute, Tree.substituteAll_eq]

/-- A reduction does not ask what the operands are. -/
theorem reduceTop_substitute (functions : Functions) (s : State) :
    reduceTop functions (s.substitute bound) =
      (reduceTop functions s).map (State.substitute bound) := by
  obtain ⟨operands, pending, counts⟩ := s
  rw [reduceTop.eq_def, reduceTop.eq_def]
  cases pending with
  | nil => rfl
  | cons top pending =>
    cases top with
    | leftBracket range => rfl
    | operator op range =>
      exact reduceOperator_substitute bound op range ⟨operands, pending, counts⟩
    | function name range =>
      exact reduceFunction_substitute bound functions name range ⟨operands, pending, counts⟩

theorem reduceWhile_substitute (functions : Functions) (goesAhead : Pending → Bool) (s : State) :
    reduceWhile functions goesAhead (s.substitute bound) =
      (reduceWhile functions goesAhead s).map (State.substitute bound) := by
  induction s using reduceWhile.induct functions goesAhead with
  | case1 s hpending =>
    have hstay : ∀ top ∈ s.pending.head?, goesAhead top = false := by
      rw [hpending]
      intro top htop
      cases htop
    rw [reduceWhile_of_head hstay, reduceWhile_of_head (s := s.substitute bound) hstay]
    rfl
  | case2 s top rest hpending hahead e hreduce =>
    have hreduce' := reduceTop_substitute bound functions s
    rw [hreduce] at hreduce'
    rw [reduceWhile_of_error hpending hahead hreduce,
      reduceWhile_of_error (s := s.substitute bound) hpending hahead hreduce']
    rfl
  | case3 s top rest hpending hahead middle hreduce ih =>
    have hreduce' := reduceTop_substitute bound functions s
    rw [hreduce] at hreduce'
    rw [reduceWhile_of_reduceTop hpending hahead hreduce,
      reduceWhile_of_reduceTop (s := s.substitute bound) hpending hahead hreduce', ih]
  | case4 s top rest hpending hstop =>
    have hstay : ∀ top ∈ s.pending.head?, goesAhead top = false := by
      rw [hpending]
      intro first hfirst
      cases hfirst
      exact Bool.not_eq_true _ ▸ hstop
    rw [reduceWhile_of_head hstay, reduceWhile_of_head (s := s.substitute bound) hstay]
    rfl

/-! ## Tokens -/

variable {bound} {functions : Functions} {caseSensitive : Bool}

/-- An identifier that is a bound constant is put in place of its variable. -/
theorem acceptIdentifier_substitute (hpolicy : bound.caseSensitive = caseSensitive)
    (name : String) (range : Range) (s : State) :
    acceptIdentifier ⟨functions, bound, caseSensitive⟩ name range (s.substitute bound) =
      (acceptIdentifier ⟨functions, .empty caseSensitive, caseSensitive⟩ name range s).substitute
        bound := by
  unfold acceptIdentifier
  dsimp only
  rw [Registry.find?_empty]
  split
  · rfl
  · have hname := bound.find?_canonical name
    rw [hpolicy] at hname
    unfold State.pushOperand State.substitute
    rw [List.map_cons, Tree.substitute, hname]
    cases bound.find? name <;> rfl

/-- Both assemblies go through the same steps. -/
theorem accept_substitute (hpolicy : bound.caseSensitive = caseSensitive) (token : Token)
    (s : State) :
    (s.substitute bound).accept ⟨functions, bound, caseSensitive⟩ token =
      (s.accept ⟨functions, .empty caseSensitive, caseSensitive⟩ token).map
        (State.substitute bound) := by
  unfold State.accept
  cases token.kind with
  | integer value => rfl
  | decimal value => rfl
  | identifier name => exact congrArg _ (acceptIdentifier_substitute hpolicy name token.range s)
  | leftBracket => rfl
  | rightBracket =>
    dsimp only
    rw [acceptRightBracket, acceptRightBracket, reduceToBracket, reduceToBracket,
      reduceWhile_substitute]
    cases reduceWhile functions (fun p => !p.isLeftBracket) s with
    | error e => rfl
    | ok t =>
      obtain ⟨operands, pending, counts⟩ := t
      cases pending with
      | nil => rfl
      | cons top pending => cases top <;> rfl
  | separator =>
    dsimp only
    rw [acceptSeparator, acceptSeparator, reduceToBracket, reduceToBracket,
      reduceWhile_substitute]
    cases reduceWhile functions (fun p => !p.isLeftBracket) s with
    | error e => rfl
    | ok t =>
      obtain ⟨operands, pending, counts⟩ := t
      cases pending with
      | nil => rfl
      | cons top pending => cases top <;> cases counts <;> rfl
  | operator op =>
    dsimp only
    rw [acceptOperator, acceptOperator, reduceWhile_substitute]
    cases reduceWhile functions (goesBefore op) s <;> rfl

theorem acceptAll_substitute (hpolicy : bound.caseSensitive = caseSensitive) (tokens : List Token)
    (s : State) :
    (s.substitute bound).acceptAll ⟨functions, bound, caseSensitive⟩ tokens =
      (s.acceptAll ⟨functions, .empty caseSensitive, caseSensitive⟩ tokens).map
        (State.substitute bound) := by
  induction tokens generalizing s with
  | nil => rfl
  | cons token tokens ih =>
    rw [State.acceptAll, State.acceptAll, accept_substitute hpolicy]
    cases s.accept ⟨functions, .empty caseSensitive, caseSensitive⟩ token with
    | error e => rfl
    | ok t => exact ih t

/-- One operand is left in both assemblies, or in none. -/
theorem toOption_finish_substitute (bound : Constants) (functions : Functions) (s : State) :
    ((s.substitute bound).finish functions).toOption =
      (s.finish functions).toOption.map (Tree.substitute bound) := by
  rw [State.finish, State.finish, reduceToBracket, reduceToBracket, reduceWhile_substitute]
  cases reduceWhile functions (fun p => !p.isLeftBracket) s with
  | error e => rfl
  | ok t =>
    obtain ⟨operands, pending, counts⟩ := t
    have hroot : (root (operands.map (Tree.substitute bound))).toOption =
        (root operands).toOption.map (Tree.substitute bound) := by
      rcases operands with _ | ⟨first, _ | ⟨second, rest⟩⟩ <;> rfl
    cases pending with
    | nil => exact hroot
    | cons top pending =>
      cases top with
      | leftBracket range => rfl
      | operator _ _ | function _ _ => exact hroot

end Assembly

/-- With bound constants the same tokens are a tree, and it is the one without
them after the substitution. -/
theorem Tree.toOption_ofTokens {bound : Constants} {caseSensitive : Bool}
    (hpolicy : bound.caseSensitive = caseSensitive) (functions : Functions)
    (tokens : List Token) :
    (ofTokens ⟨functions, bound, caseSensitive⟩ tokens).toOption =
      (ofTokens ⟨functions, .empty caseSensitive, caseSensitive⟩ tokens).toOption.map
        (substitute bound) := by
  have hrun : Assembly.State.start.acceptAll ⟨functions, bound, caseSensitive⟩ tokens = _ :=
    Assembly.acceptAll_substitute hpolicy tokens .start
  rw [ofTokens, ofTokens]
  split
  · rfl
  · rw [hrun]
    cases Assembly.State.start.acceptAll ⟨functions, .empty caseSensitive, caseSensitive⟩
        tokens with
    | error e => rfl
    | ok s => exact Assembly.toOption_finish_substitute bound functions s

end FormulaEngine
