import FormulaEngine.Proofs.Assembly.Order

/-!
# Places in a formula

A formula can be cut between any two of its tokens.  This module says what the
tokens before the cut are, without those behind it.

An expression is what `InOrder` writes down with the right number of arguments
in every call (`IsExpression`).  Tokens with an operand missing at their end
(`LacksOperand`), or an argument (`LacksArgument`), are described by what one
more expression makes of them.  `Opened` puts such parts one inside the other,
with a `Level` for each open bracket, and `Fits` adds the part after the last
one.  There is one lemma for each token that can come next.
-/

namespace FormulaEngine.Assembly

open Grammar

/-! ## Parts with something missing -/

section

variable {scope : Scope}

/-- The tokens write down a tree whose calls have the arguments that they
take. -/
def IsExpression (scope : Scope) (tokens : List Token) : Prop :=
  ∃ tree, InOrder scope tokens [tree] ∧ tree.IsExact scope.functions

/-- With one more expression, the tokens are an expression. -/
def LacksOperand (scope : Scope) (tokens : List Token) : Prop :=
  ∀ tokens', IsExpression scope tokens' → IsExpression scope (tokens ++ tokens')

/-- With one more expression, the tokens are the arguments of a call, with so
many separators between them. -/
def LacksArgument (scope : Scope) (tokens : List Token) (separators : Nat) : Prop :=
  ∀ tokens', IsExpression scope tokens' →
    ∃ arguments, InOrder scope (tokens ++ tokens') arguments ∧
      arguments.length = separators + 1 ∧
        ∀ argument ∈ arguments, argument.IsExact scope.functions

theorem isExpression_of_denotes {token : Token} {tree : Tree} (h : Denotes scope token tree) :
    IsExpression scope [token] := by
  refine ⟨tree, .operand h, ?_⟩
  have hcalls : tree.calls = [] := by cases h <;> rfl
  rw [Tree.IsExact, hcalls]
  exact List.forall_mem_nil _

theorem isExpression_group (opening closing : Text.Range) {tokens : List Token}
    (h : IsExpression scope tokens) :
    IsExpression scope (⟨.leftBracket, opening⟩ :: (tokens ++ [⟨.rightBracket, closing⟩])) := by
  obtain ⟨tree, horder, hexact⟩ := h
  exact ⟨tree, .group opening closing horder, hexact⟩

theorem isExpression_call {name : String} (range opening closing : Text.Range)
    {entry : Entry Function} {tokens : List Token} {arguments : List Tree}
    (hfunction : scope.functions.find? name = some entry) (h : InOrder scope tokens arguments)
    (harity : entry.content.arity.Admits arguments.length)
    (hexact : ∀ argument ∈ arguments, argument.IsExact scope.functions) :
    IsExpression scope (⟨.identifier name, range⟩ :: ⟨.leftBracket, opening⟩
      :: (tokens ++ [⟨.rightBracket, closing⟩])) :=
  ⟨_, .call range opening closing hfunction h,
    (Tree.isExact_call_iff hfunction).mpr ⟨harity, hexact⟩⟩

theorem lacksOperand_nil : LacksOperand scope [] := fun _ h => h

theorem LacksOperand.negate {tokens : List Token} (h : LacksOperand scope tokens)
    (range : Text.Range) : LacksOperand scope (tokens ++ [⟨.operator .negate, range⟩]) := by
  rintro tokens' ⟨argument, horder, hexact⟩
  rw [List.append_assoc]
  exact h _ ⟨.negate argument, .negate range horder, hexact⟩

theorem lacksOperand_binary (op : BinaryOp) (range : Text.Range) {tokens : List Token}
    (h : IsExpression scope tokens) :
    LacksOperand scope (tokens ++ [⟨.operator (.binary op), range⟩]) := by
  obtain ⟨left, horder, hexact⟩ := h
  rintro tokens' ⟨right, horder', hexact'⟩
  rw [List.append_assoc]
  exact ⟨_, .binary op range horder horder', Tree.isExact_binary_iff.mpr ⟨hexact, hexact'⟩⟩

theorem lacksArgument_nil : LacksArgument scope [] 0 := by
  rintro tokens' ⟨tree, horder, hexact⟩
  exact ⟨[tree], horder, rfl, List.forall_mem_singleton.mpr hexact⟩

theorem LacksArgument.separator {tokens tokens' : List Token} {separators : Nat}
    (h : LacksArgument scope tokens separators) (h' : IsExpression scope tokens')
    (range : Text.Range) :
    LacksArgument scope (tokens ++ (tokens' ++ [⟨.separator, range⟩])) (separators + 1) := by
  obtain ⟨arguments, horder, hlength, hexact⟩ := h tokens' h'
  rintro last ⟨argument, horder', hexact'⟩
  have hsome : arguments ≠ [] := by
    rintro rfl
    cases hlength
  refine ⟨arguments ++ [argument], ?_, ?_, ?_⟩
  · have hmore := InOrder.more range hsome horder horder'
    simpa using hmore
  · rw [List.length_append, hlength]
    rfl
  · exact List.forall_mem_append.mpr ⟨hexact, List.forall_mem_singleton.mpr hexact'⟩

/-! ## Open brackets -/

/-- An open bracket: that of a part of a formula, or that of a call with so
many separators so far. -/
inductive Level where
  | group
  | call (arity : Arity) (separators : Nat)

/-- How many arguments are too many if the bracket is closed after one more
operand. -/
def Level.surplus : Level → Int
  | .group => 0
  | .call arity separators => arity.surplus (separators + 1)

/-- The arguments that are too many are those that the call does not take. -/
theorem Level.surplus_call (arity : Arity) (separators : Nat) :
    (Level.call arity separators).surplus =
      separators + 1 - (argumentCount arity (separators + 1) : Nat) := by
  rw [Level.surplus, Arity.surplus_eq, Nat.add_sub_cancel, Nat.add_comm 1]
  rfl

/-- The tokens of a formula up to the last open bracket, or to the last
separator in it. -/
inductive Opened (scope : Scope) : List Level → List Token → Prop where
  | start : Opened scope [] []
  | group (opening : Text.Range) {levels : List Level} {before content : List Token}
      (h : Opened scope levels before) (hlacks : LacksOperand scope content) :
      Opened scope (.group :: levels) (before ++ (content ++ [⟨.leftBracket, opening⟩]))
  | call {name : String} (range opening : Text.Range) {entry : Entry Function}
      {levels : List Level} {before content inner : List Token} {separators : Nat}
      (hfunction : scope.functions.find? name = some entry) (h : Opened scope levels before)
      (hlacks : LacksOperand scope content) (hinner : LacksArgument scope inner separators) :
      Opened scope (.call entry.content.arity separators :: levels)
        (before ++ (content ++ ⟨.identifier name, range⟩ :: ⟨.leftBracket, opening⟩ :: inner))

/-- The tokens are those of a formula up to a place where an operand has just
ended, or where one has to begin. -/
def Fits (scope : Scope) (ended : Bool) (levels : List Level) (before : List Token) : Prop :=
  ∃ opened content, before = opened ++ content ∧ Opened scope levels opened ∧
    if ended then IsExpression scope content else LacksOperand scope content

namespace Fits

variable {levels : List Level} {before : List Token}

theorem start : Fits scope false [] [] := ⟨[], [], rfl, .start, lacksOperand_nil⟩

theorem operand {tokens : List Token} (h : Fits scope false levels before)
    (hexpression : IsExpression scope tokens) : Fits scope true levels (before ++ tokens) := by
  obtain ⟨opened, content, rfl, hopened, hlacks⟩ := h
  exact ⟨opened, content ++ tokens, List.append_assoc _ _ _, hopened, hlacks tokens hexpression⟩

theorem negate (range : Text.Range) (h : Fits scope false levels before) :
    Fits scope false levels (before ++ [⟨.operator .negate, range⟩]) := by
  obtain ⟨opened, content, rfl, hopened, hlacks⟩ := h
  exact ⟨opened, _, List.append_assoc _ _ _, hopened, LacksOperand.negate hlacks range⟩

theorem binary (op : BinaryOp) (range : Text.Range) (h : Fits scope true levels before) :
    Fits scope false levels (before ++ [⟨.operator (.binary op), range⟩]) := by
  obtain ⟨opened, content, rfl, hopened, hexpression⟩ := h
  exact ⟨opened, _, List.append_assoc _ _ _, hopened, lacksOperand_binary op range hexpression⟩

theorem group (opening : Text.Range) (h : Fits scope false levels before) :
    Fits scope false (.group :: levels) (before ++ [⟨.leftBracket, opening⟩]) := by
  obtain ⟨opened, content, rfl, hopened, hlacks⟩ := h
  refine ⟨_, [], ?_, .group opening hopened hlacks, lacksOperand_nil⟩
  simp

theorem call {name : String} (range opening : Text.Range) {entry : Entry Function}
    (hfunction : scope.functions.find? name = some entry) (h : Fits scope false levels before) :
    Fits scope false (.call entry.content.arity 0 :: levels)
      (before ++ [⟨.identifier name, range⟩, ⟨.leftBracket, opening⟩]) := by
  obtain ⟨opened, content, rfl, hopened, hlacks⟩ := h
  refine ⟨_, [], ?_, .call range opening hfunction hopened hlacks lacksArgument_nil,
    lacksOperand_nil⟩
  simp

/-- A bracket closes if no argument is missing. -/
theorem rightBracket (closing : Text.Range) {level : Level} (hexact : level.surplus = 0)
    (h : Fits scope true (level :: levels) before) :
    Fits scope true levels (before ++ [⟨.rightBracket, closing⟩]) := by
  obtain ⟨_, content, rfl, hopened, hexpression⟩ := h
  cases hopened with
  | @group opening _ opened content' hopened hlacks =>
    refine ⟨opened, _, ?_, hopened, hlacks _ (isExpression_group opening closing hexpression)⟩
    simp
  | @call name range opening entry _ opened content' inner separators hfunction hopened hlacks
      hinner =>
    obtain ⟨arguments, horder, hlength, hexact'⟩ := hinner content hexpression
    have harity : entry.content.arity.Admits arguments.length := by
      rw [hlength]
      exact Arity.surplus_eq_zero_iff.mp hexact
    have hcall := isExpression_call range opening closing hfunction horder harity hexact'
    refine ⟨opened, _, ?_, hopened, hlacks _ hcall⟩
    simp

theorem separator (range : Text.Range) {arity : Arity} {separators : Nat}
    (h : Fits scope true (.call arity separators :: levels) before) :
    Fits scope false (.call arity (separators + 1) :: levels)
      (before ++ [⟨.separator, range⟩]) := by
  obtain ⟨_, content, rfl, hopened, hexpression⟩ := h
  cases hopened with
  | call range' opening hfunction hopened hlacks hinner =>
    refine ⟨_, [], ?_, .call range' opening hfunction hopened hlacks
      (hinner.separator hexpression range), lacksOperand_nil⟩
    simp

theorem isExpression (h : Fits scope true [] before) : IsExpression scope before := by
  obtain ⟨_, content, rfl, hopened, hexpression⟩ := h
  cases hopened
  exact hexpression

end Fits

end

end FormulaEngine.Assembly
