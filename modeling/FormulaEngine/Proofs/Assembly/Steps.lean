import FormulaEngine.Proofs.Assembly.Reading
import Mathlib.Logic.Relation

/-!
# What the steps of the assembly do

The assembly of a tree is a run of steps on three stacks.  This module says
once what each step can do, so that no other proof has to open it.

* `Reduces` is one reduction: the topmost waiting operator or call takes its
  operands.
* `Takes` is one token.  Some tokens let reductions go ahead first.
* `Runs` is a list of tokens.

`exists_runs_of_ofTokens` says that a tree is what such a run leaves over when
all waiting ones have gone ahead.  `Inherited` is the simplest use: a property
that operands have, and that nodes get from the trees below them, is a property
of every assembled tree.
-/

namespace FormulaEngine.Assembly

open Text

/-! ## Reductions -/

/-- The topmost waiting one takes its operands. -/
inductive Reduces (functions : Functions) : State → State → Prop where
  | negate {argument : Tree} {operands : List Tree} {pending : List Pending} {counts : List Nat}
      (range : Range) :
      Reduces functions ⟨argument :: operands, .operator .negate range :: pending, counts⟩
        ⟨.negate argument :: operands, pending, counts⟩
  | binary {left right : Tree} {operands : List Tree} {pending : List Pending}
      {counts : List Nat} (op : BinaryOp) (range : Range) :
      Reduces functions
        ⟨right :: left :: operands, .operator (.binary op) range :: pending, counts⟩
        ⟨.binary op left right :: operands, pending, counts⟩
  | call {name : String} {entry : Entry Function} {arguments operands : List Tree}
      {pending : List Pending} {counts : List Nat} (range : Range)
      (hfunction : functions.find? name = some entry)
      (hcount : arguments.length = argumentCount entry.content.arity (counts.headD 0)) :
      Reduces functions ⟨arguments.reverse ++ operands, .function name range :: pending, counts⟩
        ⟨.call entry.name entry.content.isIdempotent arguments :: operands, pending, counts.tail⟩

/-- Some reductions, one after the other. -/
abbrev ReducesAll (functions : Functions) : State → State → Prop :=
  Relation.ReflTransGen (Reduces functions)

theorem reduces_of_reduceOperator {functions : Functions} {op : Operator} {range : Range}
    {operands : List Tree} {pending : List Pending} {counts : List Nat} {t : State}
    (h : reduceOperator op range ⟨operands, pending, counts⟩ = .ok t) :
    Reduces functions ⟨operands, .operator op range :: pending, counts⟩ t := by
  unfold reduceOperator at h
  split at h
  · rename_i argument rest hoperands
    dsimp only at hoperands
    subst hoperands
    cases h
    exact .negate range
  · rename_i op right left rest hoperands
    dsimp only at hoperands
    subst hoperands
    cases h
    exact .binary op range
  · cases h

theorem reduces_of_reduceFunction {functions : Functions} {name : String} {range : Range}
    {operands : List Tree} {pending : List Pending} {counts : List Nat} {t : State}
    (h : reduceFunction functions name range ⟨operands, pending, counts⟩ = .ok t) :
    Reduces functions ⟨operands, .function name range :: pending, counts⟩ t := by
  unfold reduceFunction at h
  split at h
  · cases h
  · rename_i entry hfunction
    dsimp only at h
    split at h
    · cases h
    · rename_i hlength
      cases h
      -- The operands are those that the call takes, and the rest.
      rw [Nat.not_lt] at hlength
      conv in State.mk operands _ _ =>
        rw [← List.take_append_drop (argumentCount entry.content.arity (counts.headD 0)) operands,
          ← List.reverse_reverse (operands.take _)]
      refine .call range hfunction ?_
      rw [List.length_reverse, List.length_take, Nat.min_eq_left hlength]

/-- What a reduction does. -/
theorem reduces_of_reduceTop {functions : Functions} {s t : State}
    (h : reduceTop functions s = .ok t) : Reduces functions s t := by
  obtain ⟨operands, pending, counts⟩ := s
  unfold reduceTop at h
  split at h
  · cases h
  · cases h
  · rename_i op range rest hpending
    dsimp only at hpending
    subst hpending
    exact reduces_of_reduceOperator h
  · rename_i name range rest hpending
    dsimp only at hpending
    subst hpending
    exact reduces_of_reduceFunction h

/-- Reductions go on until the topmost waiting one stays. -/
theorem reducesAll_of_reduceWhile {functions : Functions} {goesAhead : Pending → Bool}
    {s t : State} (h : reduceWhile functions goesAhead s = .ok t) :
    ReducesAll functions s t ∧ ∀ top ∈ t.pending.head?, goesAhead top = false := by
  induction s using reduceWhile.induct functions goesAhead with
  | case1 s hpending =>
    have hstay : ∀ top ∈ s.pending.head?, goesAhead top = false := by
      rw [hpending]
      nofun
    rw [reduceWhile_of_head hstay] at h
    cases h
    exact ⟨.refl, hstay⟩
  | case2 s top rest hpending hahead e hreduce =>
    rw [reduceWhile_of_error hpending hahead hreduce] at h
    cases h
  | case3 s top rest hpending hahead middle hreduce ih =>
    rw [reduceWhile_of_reduceTop hpending hahead hreduce] at h
    obtain ⟨hreduces, hstay⟩ := ih h
    exact ⟨.head (reduces_of_reduceTop hreduce) hreduces, hstay⟩
  | case4 s top rest hpending hstop =>
    have hstay : ∀ top ∈ s.pending.head?, goesAhead top = false := by
      rw [hpending]
      intro first hfirst
      cases hfirst
      exact Bool.not_eq_true _ ▸ hstop
    rw [reduceWhile_of_head hstay] at h
    cases h
    exact ⟨.refl, hstay⟩

/-- Reductions down to a bracket leave one on top, or nothing. -/
theorem reducesAll_of_reduceToBracket {functions : Functions} {s t : State}
    (h : reduceToBracket functions s = .ok t) : ReducesAll functions s t ∧ t.IsOpen := by
  obtain ⟨hreduces, hstay⟩ := reducesAll_of_reduceWhile h
  refine ⟨hreduces, fun top htop => ?_⟩
  simpa using hstay top htop

/-! ## Tokens -/

/-- A token that is an operand by itself. -/
inductive Denotes (scope : Scope) : Token → Tree → Prop where
  | integer (value : Int64) (range : Range) :
      Denotes scope ⟨.integer value, range⟩ (.integer value)
  | decimal (value : Decimal) (range : Range) :
      Denotes scope ⟨.decimal value, range⟩ (.decimal value)
  | constantName {name : String} (range : Range) {entry : Entry Decimal}
      (hfunction : scope.functions.find? name = none)
      (hconstant : scope.constants.find? name = some entry) :
      Denotes scope ⟨.identifier name, range⟩ (.decimal entry.content)
  | variableName {name : String} (range : Range)
      (hfunction : scope.functions.find? name = none)
      (hconstant : scope.constants.find? name = none) :
      Denotes scope ⟨.identifier name, range⟩ (.var (canonical scope.caseSensitive name))

theorem Denotes.find?_eq_none {scope : Scope} {name : String} {range : Range} {tree : Tree}
    (h : Denotes scope ⟨.identifier name, range⟩ tree) : scope.functions.find? name = none := by
  cases h with
  | constantName _ hfunction _ => exact hfunction
  | variableName _ hfunction _ => exact hfunction

/-- A token is one operand at most. -/
theorem Denotes.eq {scope : Scope} {token : Token} {tree tree' : Tree}
    (h : Denotes scope token tree) (h' : Denotes scope token tree') : tree = tree' := by
  cases h with
  | integer _ _ | decimal _ _ =>
    cases h'
    rfl
  | constantName _ _ hconstant =>
    cases h' with
    | constantName _ _ hconstant' =>
      rw [hconstant] at hconstant'
      cases hconstant'
      rfl
    | variableName _ _ hconstant' =>
      rw [hconstant] at hconstant'
      cases hconstant'
  | variableName _ _ hconstant =>
    cases h' with
    | constantName _ _ hconstant' =>
      rw [hconstant] at hconstant'
      cases hconstant'
    | variableName _ _ _ => rfl

/-- The stacks before and after a token. -/
inductive Takes (scope : Scope) : Token → State → State → Prop where
  | operand {token : Token} {tree : Tree} (s : State) (h : Denotes scope token tree) :
      Takes scope token s (s.pushOperand tree)
  | name {name : String} {entry : Entry Function} (range : Range) (s : State)
      (hfunction : scope.functions.find? name = some entry) :
      Takes scope ⟨.identifier name, range⟩ s
        ⟨s.operands, .function name range :: s.pending, 1 :: s.counts⟩
  | leftBracket (range : Range) (s : State) :
      Takes scope ⟨.leftBracket, range⟩ s (s.pushPending (.leftBracket range))
  | rightBracket (range : Range) {opening : Range} {s : State} {operands : List Tree}
      {pending : List Pending} {counts : List Nat}
      (h : ReducesAll scope.functions s ⟨operands, .leftBracket opening :: pending, counts⟩) :
      Takes scope ⟨.rightBracket, range⟩ s ⟨operands, pending, counts⟩
  | separator (range : Range) {opening : Range} {s : State} {operands : List Tree}
      {pending : List Pending} {count : Nat} {counts : List Nat}
      (h : ReducesAll scope.functions s
        ⟨operands, .leftBracket opening :: pending, count :: counts⟩) :
      Takes scope ⟨.separator, range⟩ s
        ⟨operands, .leftBracket opening :: pending, (count + 1) :: counts⟩
  | operator (op : Operator) (range : Range) {s t : State}
      (h : reduceWhile scope.functions (goesBefore op) s = .ok t) :
      Takes scope ⟨.operator op, range⟩ s (t.pushPending (.operator op range))

section

variable {scope : Scope} {s t : State}

theorem takes_identifier (name : String) (range : Range) (s : State) :
    Takes scope ⟨.identifier name, range⟩ s (acceptIdentifier scope name range s) := by
  unfold acceptIdentifier
  cases hfunction : scope.functions.find? name with
  | some entry => exact .name range s hfunction
  | none =>
    cases hconstant : scope.constants.find? name with
    | some entry => exact .operand s (.constantName range hfunction hconstant)
    | none => exact .operand s (.variableName range hfunction hconstant)

theorem takes_rightBracket {range : Range}
    (h : acceptRightBracket scope.functions range s = .ok t) :
    Takes scope ⟨.rightBracket, range⟩ s t := by
  unfold acceptRightBracket at h
  split at h
  · cases h
  · rename_i middle hreduce
    obtain ⟨hreduces, _⟩ := reducesAll_of_reduceToBracket hreduce
    obtain ⟨operands, pending, counts⟩ := middle
    dsimp only at h
    split at h
    · cases h
      exact .rightBracket range hreduces
    · cases h

theorem takes_separator {range : Range} (h : acceptSeparator scope.functions range s = .ok t) :
    Takes scope ⟨.separator, range⟩ s t := by
  unfold acceptSeparator at h
  split at h
  · cases h
  · rename_i middle hreduce
    obtain ⟨hreduces, _⟩ := reducesAll_of_reduceToBracket hreduce
    obtain ⟨operands, pending, counts⟩ := middle
    dsimp only at h
    split at h
    · cases h
      exact .separator range hreduces
    · cases h

theorem takes_operator {op : Operator} {range : Range}
    (h : acceptOperator scope.functions op range s = .ok t) :
    Takes scope ⟨.operator op, range⟩ s t := by
  unfold acceptOperator at h
  split at h
  · cases h
  · rename_i middle hreduce
    cases h
    exact .operator op range hreduce

/-- What a token does. -/
theorem takes_of_accept {token : Token} (h : s.accept scope token = .ok t) :
    Takes scope token s t := by
  obtain ⟨kind, range⟩ := token
  unfold State.accept at h
  cases kind with
  | integer value =>
    cases h
    exact .operand s (.integer value range)
  | decimal value =>
    cases h
    exact .operand s (.decimal value range)
  | identifier name =>
    cases h
    exact takes_identifier name range s
  | leftBracket =>
    cases h
    exact .leftBracket range s
  | rightBracket => exact takes_rightBracket h
  | separator => exact takes_separator h
  | operator op => exact takes_operator h

end

/-! ### One kind of token -/

namespace Takes

variable {scope : Scope} {s t : State}

theorem eq_of_denotes {token : Token} {tree : Tree} (h : Takes scope token s t)
    (hdenotes : Denotes scope token tree) : t = s.pushOperand tree := by
  cases h with
  | operand s h => rw [hdenotes.eq h]
  | name range s hfunction => exact absurd hfunction (by simp [hdenotes.find?_eq_none])
  | leftBracket _ _ | rightBracket _ _ | separator _ _ | operator _ _ _ => cases hdenotes

theorem eq_of_name {name : String} {range : Range} {entry : Entry Function}
    (h : Takes scope ⟨.identifier name, range⟩ s t)
    (hfunction : scope.functions.find? name = some entry) :
    t = ⟨s.operands, .function name range :: s.pending, 1 :: s.counts⟩ := by
  cases h with
  | operand s h => exact absurd hfunction (by simp [h.find?_eq_none])
  | name _ _ _ => rfl

theorem eq_of_leftBracket {range : Range} (h : Takes scope ⟨.leftBracket, range⟩ s t) :
    t = s.pushPending (.leftBracket range) := by
  cases h with
  | operand s h => cases h
  | leftBracket _ _ => rfl

theorem exists_of_rightBracket {range : Range} (h : Takes scope ⟨.rightBracket, range⟩ s t) :
    ∃ opening, ReducesAll scope.functions s (t.pushPending (.leftBracket opening)) := by
  cases h with
  | operand s h => cases h
  | rightBracket _ h => exact ⟨_, h⟩

theorem exists_of_separator {range : Range} (h : Takes scope ⟨.separator, range⟩ s t) :
    ∃ opening operands pending count counts,
      ReducesAll scope.functions s ⟨operands, .leftBracket opening :: pending, count :: counts⟩ ∧
        t = ⟨operands, .leftBracket opening :: pending, (count + 1) :: counts⟩ := by
  cases h with
  | operand s h => cases h
  | separator _ h => exact ⟨_, _, _, _, _, h, rfl⟩

theorem exists_of_operator {op : Operator} {range : Range}
    (h : Takes scope ⟨.operator op, range⟩ s t) :
    ∃ middle, reduceWhile scope.functions (goesBefore op) s = .ok middle ∧
      t = middle.pushPending (.operator op range) := by
  cases h with
  | operand s h => cases h
  | operator _ _ h => exact ⟨_, h, rfl⟩

end Takes

/-! ## Runs -/

/-- The stacks before and after a list of tokens. -/
inductive Runs (scope : Scope) : List Token → State → State → Prop where
  | nil (s : State) : Runs scope [] s s
  | cons {token : Token} {tokens : List Token} {s middle t : State}
      (h : Takes scope token s middle) (h' : Runs scope tokens middle t) :
      Runs scope (token :: tokens) s t

theorem runs_of_acceptAll {scope : Scope} {tokens : List Token} {s t : State}
    (h : s.acceptAll scope tokens = .ok t) : Runs scope tokens s t := by
  induction tokens generalizing s with
  | nil =>
    cases h
    exact .nil _
  | cons token tokens ih =>
    unfold State.acceptAll at h
    split at h
    · cases h
    · rename_i middle haccept
      exact .cons (takes_of_accept haccept) (ih h)

theorem Runs.exists_of_cons {scope : Scope} {token : Token} {tokens : List Token} {s t : State}
    (h : Runs scope (token :: tokens) s t) :
    ∃ middle, Takes scope token s middle ∧ Runs scope tokens middle t := by
  cases h with
  | cons htakes hruns => exact ⟨_, htakes, hruns⟩

/-- A run over two lists has a state between them. -/
theorem Runs.exists_of_append {scope : Scope} {tokens tokens' : List Token} {s t : State}
    (h : Runs scope (tokens ++ tokens') s t) :
    ∃ middle, Runs scope tokens s middle ∧ Runs scope tokens' middle t := by
  induction tokens generalizing s with
  | nil => exact ⟨s, .nil s, h⟩
  | cons token tokens ih =>
    obtain ⟨next, htakes, hruns⟩ := h.exists_of_cons
    obtain ⟨middle, hfirst, hrest⟩ := ih hruns
    exact ⟨middle, .cons htakes hfirst, hrest⟩

theorem eq_singleton_of_root {operands : List Tree} {tree : Tree}
    (h : root operands = .ok tree) : operands = [tree] := by
  unfold root at h
  split at h
  · cases h
  · cases h
    rfl
  · cases h

/-- A tree is all that a run leaves over. -/
theorem exists_runs_of_ofTokens {scope : Scope} {tokens : List Token} {tree : Tree}
    (h : Tree.ofTokens scope tokens = .ok tree) :
    ∃ s counts, Runs scope tokens .start s ∧
      ReducesAll scope.functions s ⟨[tree], [], counts⟩ := by
  unfold Tree.ofTokens at h
  split at h
  · cases h
  · split at h
    · cases h
    · rename_i s haccept
      unfold State.finish at h
      split at h
      · cases h
      · rename_i last hreduce
        obtain ⟨hreduces, hopen⟩ := reducesAll_of_reduceToBracket hreduce
        obtain ⟨operands, pending, counts⟩ := last
        refine ⟨s, counts, runs_of_acceptAll haccept, ?_⟩
        dsimp only at h
        cases pending with
        | nil => rwa [← eq_singleton_of_root h]
        | cons top pending =>
          have htop := hopen top rfl
          cases top with
          | leftBracket range => cases h
          | operator _ _ | function _ _ => cases htop

/-! ## Inherited properties -/

/-- A property of operands that nodes get from the trees below them. -/
structure Inherited (scope : Scope) (p : Tree → Prop) : Prop where
  operand : ∀ token tree, Denotes scope token tree → p tree
  negate : ∀ argument, p argument → p (.negate argument)
  binary : ∀ op left right, p left → p right → p (.binary op left right)
  call : ∀ name entry arguments, scope.functions.find? name = some entry →
    (∀ argument ∈ arguments, p argument) →
      p (.call entry.name entry.content.isIdempotent arguments)

namespace Inherited

variable {scope : Scope} {p : Tree → Prop} (hp : Inherited scope p) {s t : State}

include hp

theorem of_reduces (h : Reduces scope.functions s t) (hs : ∀ tree ∈ s.operands, p tree) :
    ∀ tree ∈ t.operands, p tree := by
  cases h with
  | negate range =>
    rw [List.forall_mem_cons] at hs ⊢
    exact ⟨hp.negate _ hs.1, hs.2⟩
  | binary op range =>
    rw [List.forall_mem_cons, List.forall_mem_cons] at hs
    rw [List.forall_mem_cons]
    exact ⟨hp.binary op _ _ hs.2.1 hs.1, hs.2.2⟩
  | call range hfunction hcount =>
    rw [List.forall_mem_append] at hs
    rw [List.forall_mem_cons]
    refine ⟨hp.call _ _ _ hfunction fun argument hmem => ?_, hs.2⟩
    exact hs.1 argument (List.mem_reverse.mpr hmem)

theorem of_reducesAll (h : ReducesAll scope.functions s t) (hs : ∀ tree ∈ s.operands, p tree) :
    ∀ tree ∈ t.operands, p tree := by
  induction h with
  | refl => exact hs
  | tail _ hreduces ih => exact hp.of_reduces hreduces ih

theorem of_takes {token : Token} (h : Takes scope token s t) (hs : ∀ tree ∈ s.operands, p tree) :
    ∀ tree ∈ t.operands, p tree := by
  cases h with
  | operand s hdenotes => exact List.forall_mem_cons.mpr ⟨hp.operand _ _ hdenotes, hs⟩
  | name range s hfunction => exact hs
  | leftBracket range s => exact hs
  | rightBracket range hreduces =>
    have hafter := hp.of_reducesAll hreduces hs
    exact hafter
  | separator range hreduces =>
    have hafter := hp.of_reducesAll hreduces hs
    exact hafter
  | operator op range hreduce =>
    have hafter := hp.of_reducesAll (reducesAll_of_reduceWhile hreduce).1 hs
    exact hafter

theorem of_runs {tokens : List Token} (h : Runs scope tokens s t)
    (hs : ∀ tree ∈ s.operands, p tree) : ∀ tree ∈ t.operands, p tree := by
  induction h with
  | nil s => exact hs
  | cons htakes _ ih => exact ih (hp.of_takes htakes hs)

/-- Every assembled tree has an inherited property. -/
theorem of_ofTokens {tokens : List Token} {tree : Tree}
    (h : Tree.ofTokens scope tokens = .ok tree) : p tree := by
  obtain ⟨s, counts, hruns, hreduces⟩ := exists_runs_of_ofTokens h
  have hlast := hp.of_reducesAll hreduces (hp.of_runs hruns nofun)
  exact hlast tree List.mem_cons_self

end Inherited

end FormulaEngine.Assembly
