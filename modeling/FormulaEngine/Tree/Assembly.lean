import FormulaEngine.Function
import FormulaEngine.Token
import FormulaEngine.Tree

/-!
# Assembling trees from tokens

`Tree.ofTokens` turns a list of tokens into a formula tree.  It reads the
tokens once, from left to right, with three stacks: finished operands,
operators, calls and brackets that wait, and the number of arguments that
each waiting call has so far.

* A literal, a constant or a variable is an operand.  A name of a function
  waits as a call.
* An operator first lets those waiting ones go ahead that bind as strongly
  as its associativity asks for (`Operator.yieldsTo`), and every waiting
  call.  Then it waits itself.
* A right bracket and an argument separator let everything go ahead down to
  the last left bracket, and so does the end of the formula.

An operator that goes ahead takes its operands from the finished ones.  A
call takes as many as its function has parameters, or as many as were
counted if the function takes any number.

`State` holds the three stacks, `reduceTop` lets the topmost waiting one go
ahead, and `State.accept` takes one token.
-/

namespace FormulaEngine

open Text

/-- Why a list of tokens is no formula. -/
inductive ParseError where
  | unmatchedRightBracket (range : Range)
  | unmatchedLeftBracket (range : Range)
  | operatorArgumentMismatch (op : Operator) (range : Range)
  | functionArgumentMismatch (name : String) (range : Range)
  | unknownFunction (name : String) (range : Range)
  | unexpectedInteger (value : Int64)
  | unexpectedDecimal (text : String)
  | invalidSyntax
  | emptyFormula
  | misplacedSeparator (range : Range)
  deriving DecidableEq

namespace ParseError

/-- The token at fault, if the error has one. -/
def range? : ParseError → Option Range
  | .unmatchedRightBracket range | .unmatchedLeftBracket range
  | .operatorArgumentMismatch _ range | .functionArgumentMismatch _ range
  | .unknownFunction _ range | .misplacedSeparator range => some range
  | .unexpectedInteger _ | .unexpectedDecimal _ | .invalidSyntax | .emptyFormula => none

/-- The wording of an operator or function with the wrong operands. -/
def mismatchMessage (noun name : String) (range : Range) : String :=
  "There is a syntax issue for the " ++ noun ++ " \"" ++ name ++ "\" at position "
    ++ range.start.toText
    ++ ". The number of arguments does not match with what is expected."

/-- The wording of a parse error. -/
def message : ParseError → String
  | .unmatchedRightBracket range =>
    "No matching left bracket found for the right bracket at position "
      ++ range.start.toText ++ "."
  | .unmatchedLeftBracket range =>
    "No matching right bracket found for the left bracket at position "
      ++ range.start.toText ++ "."
  | .operatorArgumentMismatch op range => mismatchMessage "operation" op.symbol range
  | .functionArgumentMismatch name range => mismatchMessage "function" name range
  | .unknownFunction name _ => "The function \"" ++ name ++ "\" is not defined."
  | .unexpectedInteger value =>
    "Unexpected integer constant \"" ++ integerText value.toInt ++ "\" found."
  | .unexpectedDecimal text =>
    "Unexpected floating point constant \"" ++ text ++ "\" found."
  | .invalidSyntax => "The syntax of the provided formula is not valid."
  | .emptyFormula => "The provided formula is empty."
  | .misplacedSeparator range =>
    "Unexpected argument separator at position " ++ range.start.toText ++ "."

end ParseError

/-- What names mean while a formula is assembled: the functions, the
constants to put in place of their names, and the case policy. -/
structure Scope where
  functions : Functions
  constants : Constants
  caseSensitive : Bool

namespace Assembly

/-- What waits for its operands or for its closing bracket. -/
inductive Pending where
  | operator (op : Operator) (range : Range)
  | function (name : String) (range : Range)
  | leftBracket (range : Range)
  deriving DecidableEq

/-- Whether the waiting one is a left bracket. -/
def Pending.isLeftBracket : Pending → Bool
  | .leftBracket _ => true
  | _ => false

/-- The three stacks, the topmost member first. -/
structure State where
  operands : List Tree
  pending : List Pending
  counts : List Nat

/-- Nothing read yet. -/
def State.start : State := ⟨[], [], []⟩

/-- Puts an operand on its stack. -/
def State.pushOperand (s : State) (tree : Tree) : State :=
  { s with operands := tree :: s.operands }

/-- Puts a waiting one on its stack. -/
def State.pushPending (s : State) (p : Pending) : State :=
  { s with pending := p :: s.pending }

/-! ## Reductions -/

/-- An operator takes its operands. -/
def reduceOperator (op : Operator) (range : Range) (s : State) : Except ParseError State :=
  match op, s.operands with
  | .negate, argument :: operands => .ok { s with operands := .negate argument :: operands }
  | .binary op, right :: left :: operands =>
    .ok { s with operands := .binary op left right :: operands }
  | op, _ => .error (.operatorArgumentMismatch op range)

/-- How many operands a call takes, when `counted` arguments were written. -/
def argumentCount (arity : Arity) (counted : Nat) : Nat :=
  match arity with
  | .fixed count => count
  | .dynamic => counted

/-- A call takes its arguments. -/
def reduceFunction (functions : Functions) (name : String) (range : Range) (s : State) :
    Except ParseError State :=
  match functions.find? name with
  | none => .error (.unknownFunction name range)
  | some entry =>
    let count := argumentCount entry.content.arity (s.counts.headD 0)
    if s.operands.length < count then .error (.functionArgumentMismatch name range)
    else
      let arguments := (s.operands.take count).reverse
      .ok { s with
        operands :=
          .call entry.name entry.content.isIdempotent arguments :: s.operands.drop count
        counts := s.counts.tail }

/-- The topmost waiting one takes its operands. -/
def reduceTop (functions : Functions) (s : State) : Except ParseError State :=
  match s.pending with
  | [] => .error .invalidSyntax
  | .leftBracket range :: _ => .error (.unmatchedLeftBracket range)
  | .operator op range :: pending => reduceOperator op range { s with pending := pending }
  | .function name range :: pending =>
    reduceFunction functions name range { s with pending := pending }

theorem reduceOperator_pending {op : Operator} {range : Range} {s t : State}
    (h : reduceOperator op range s = .ok t) : t.pending = s.pending := by
  unfold reduceOperator at h
  split at h <;> first | (cases h; rfl) | exact nomatch h

theorem reduceFunction_pending {functions : Functions} {name : String} {range : Range}
    {s t : State} (h : reduceFunction functions name range s = .ok t) :
    t.pending = s.pending := by
  unfold reduceFunction at h
  split at h
  · exact nomatch h
  · dsimp only at h
    split at h
    · exact nomatch h
    · cases h
      rfl

/-- A reduction takes exactly the topmost waiting one away. -/
theorem reduceTop_pending {functions : Functions} {s t : State}
    (h : reduceTop functions s = .ok t) : ∃ top, s.pending = top :: t.pending := by
  unfold reduceTop at h
  split at h
  · exact nomatch h
  · exact nomatch h
  · rename_i heq
    exact ⟨_, by rw [reduceOperator_pending h]; exact heq⟩
  · rename_i heq
    exact ⟨_, by rw [reduceFunction_pending h]; exact heq⟩

/-- Reduces as long as the topmost waiting one satisfies `goesAhead`. -/
def reduceWhile (functions : Functions) (goesAhead : Pending → Bool) (s : State) :
    Except ParseError State :=
  match _hp : s.pending with
  | [] => .ok s
  | top :: _ =>
    if goesAhead top then
      match _h : reduceTop functions s with
      | .error e => .error e
      | .ok t => reduceWhile functions goesAhead t
    else .ok s
termination_by s.pending.length
decreasing_by
  obtain ⟨_, h⟩ := reduceTop_pending _h
  rw [h]
  exact Nat.lt_succ_self _

/-- Reduces down to the last left bracket. -/
def reduceToBracket (functions : Functions) (s : State) : Except ParseError State :=
  reduceWhile functions (fun p => !p.isLeftBracket) s

/-- Whether a waiting one goes ahead of the operator `next`. -/
def goesBefore (next : Operator) : Pending → Bool
  | .operator op _ => op.yieldsTo next
  | .function _ _ => true
  | .leftBracket _ => false

/-! ## Tokens -/

/-- A name is a call, else a constant, else a variable. -/
def acceptIdentifier (scope : Scope) (name : String) (range : Range) (s : State) : State :=
  if (scope.functions.find? name).isSome then
    { s.pushPending (.function name range) with counts := 1 :: s.counts }
  else
    match scope.constants.find? name with
    | some entry => s.pushOperand (.decimal entry.content)
    | none => s.pushOperand (.var (canonical scope.caseSensitive name))

/-- An operator waits behind those that go before it. -/
def acceptOperator (functions : Functions) (op : Operator) (range : Range) (s : State) :
    Except ParseError State :=
  match reduceWhile functions (goesBefore op) s with
  | .error e => .error e
  | .ok t => .ok (t.pushPending (.operator op range))

/-- A right bracket closes the last left one. -/
def acceptRightBracket (functions : Functions) (range : Range) (s : State) :
    Except ParseError State :=
  match reduceToBracket functions s with
  | .error e => .error e
  | .ok t =>
    match t.pending with
    | .leftBracket _ :: pending => .ok { t with pending := pending }
    | _ => .error (.unmatchedRightBracket range)

/-- A separator inside brackets counts an argument of the last waiting
call. -/
def acceptSeparator (functions : Functions) (range : Range) (s : State) :
    Except ParseError State :=
  match reduceToBracket functions s with
  | .error e => .error e
  | .ok t =>
    match t.pending, t.counts with
    | .leftBracket _ :: _, count :: counts => .ok { t with counts := (count + 1) :: counts }
    | _, _ => .error (.misplacedSeparator range)

/-- The state after one more token. -/
def State.accept (scope : Scope) (s : State) (token : Token) : Except ParseError State :=
  match token.kind with
  | .integer value => .ok (s.pushOperand (.integer value))
  | .decimal value => .ok (s.pushOperand (.decimal value))
  | .identifier name => .ok (acceptIdentifier scope name token.range s)
  | .leftBracket => .ok (s.pushPending (.leftBracket token.range))
  | .rightBracket => acceptRightBracket scope.functions token.range s
  | .separator => acceptSeparator scope.functions token.range s
  | .operator op => acceptOperator scope.functions op token.range s

/-- The state after a list of tokens. -/
def State.acceptAll (scope : Scope) (s : State) : List Token → Except ParseError State
  | [] => .ok s
  | token :: tokens =>
    match s.accept scope token with
    | .error e => .error e
    | .ok t => t.acceptAll scope tokens

/-! ## The end of a formula -/

/-- The error for operands that no operator joins with the root: the last
literal among them, if there is one. -/
def strayError (strays : List Tree) : ParseError :=
  match strays.find? Tree.isLiteral with
  | some (.integer value) => .unexpectedInteger value
  | some (.decimal value) => .unexpectedDecimal value.toText
  | _ => .invalidSyntax

/-- The only operand. -/
def root (operands : List Tree) : Except ParseError Tree :=
  match operands with
  | [] => .error .invalidSyntax
  | [tree] => .ok tree
  | _ :: strays => .error (strayError strays)

/-- The tree of a state at the end of a formula. -/
def State.finish (functions : Functions) (s : State) : Except ParseError Tree :=
  match reduceToBracket functions s with
  | .error e => .error e
  | .ok t =>
    match t.pending with
    | .leftBracket range :: _ => .error (.unmatchedLeftBracket range)
    | _ => root t.operands

end Assembly

/-- The formula tree of a list of tokens. -/
def Tree.ofTokens (scope : Scope) (tokens : List Token) : Except ParseError Tree :=
  if tokens.isEmpty then .error .emptyFormula
  else
    match Assembly.State.start.acceptAll scope tokens with
    | .error e => .error e
    | .ok s => s.finish scope.functions

end FormulaEngine
