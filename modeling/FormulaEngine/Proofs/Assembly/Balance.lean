import FormulaEngine.Proofs.Assembly.Order
import Mathlib.Algebra.Order.BigOperators.Group.List
import Mathlib.Algebra.Order.Group.Int
import Mathlib.Algebra.Order.Monoid.OrderDual
import Mathlib.Algebra.Ring.Int.Defs

/-!
# The balance of the stacks

The assembly never checks which operands belong to which call.  What it cannot
change is their number.  The balance of the stacks is how many operands would
be left if all waiting ones went ahead now.

* `Reduces.balance_eq`: a reduction keeps the balance.
* `adds_of_inOrder`: tokens that write down a tree add one operand to the
  balance, and one for each argument that is too many.

A tree is the only operand of its run.  So if a formula is accepted, the
arguments that its calls have too many are as many as are missing in others
(`totalSurplus_of_ofTokens`).  If none are missing, or if none are too many, every
call has the arguments that it takes.  This is `calls_take_their_arguments`.
-/

namespace FormulaEngine

/-- How many arguments the calls of a tree have too many, all together. -/
def Tree.totalSurplus (functions : Functions) (tree : Tree) : Int :=
  (tree.calls.map (surplus functions)).sum

namespace Tree

variable (functions : Functions)

/-- No call has too many arguments, or no call has too few. -/
def IsOneSided (tree : Tree) : Prop :=
  (∀ call ∈ tree.calls, surplus functions call ≤ 0) ∨
    ∀ call ∈ tree.calls, 0 ≤ surplus functions call

instance (tree : Tree) : Decidable (tree.IsOneSided functions) :=
  inferInstanceAs (Decidable (_ ∨ _))

@[simp] theorem totalSurplus_binary (op : BinaryOp) (left right : Tree) :
    (binary op left right).totalSurplus functions =
      left.totalSurplus functions + right.totalSurplus functions := by
  rw [totalSurplus, calls_binary, List.map_append, List.sum_append]
  rfl

@[simp] theorem totalSurplus_negate (argument : Tree) :
    (negate argument).totalSurplus functions = argument.totalSurplus functions := rfl

theorem totalSurplus_call {functions : Functions} {name : String} {entry : Entry Function}
    (hfunction : functions.find? name = some entry) (idempotent : Bool) (arguments : List Tree) :
    (call entry.name idempotent arguments).totalSurplus functions =
      entry.content.arity.surplus arguments.length +
        (arguments.map (totalSurplus functions)).sum := by
  have hbelow : ((arguments.flatMap calls).map (surplus functions)).sum =
      (arguments.map (totalSurplus functions)).sum := by
    induction arguments with
    | nil => rfl
    | cons argument arguments ih =>
      rw [List.flatMap_cons, List.map_append, List.sum_append, List.map_cons, List.sum_cons, ih]
      rfl
  rw [totalSurplus, calls_call, List.map_cons, List.sum_cons, surplus_name hfunction, hbelow]

theorem totalSurplus_of_denotes {scope : Scope} {token : Token} {tree : Tree}
    (h : Assembly.Denotes scope token tree) : tree.totalSurplus functions = 0 := by
  cases h <;> rfl

end Tree

namespace Assembly

open Grammar

/-! ## What is owed -/

/-- How many operands a waiting call takes. -/
def callCount (functions : Functions) (name : String) (counts : List Nat) : Nat :=
  match functions.find? name with
  | some entry => argumentCount entry.content.arity (counts.headD 0)
  | none => 0

/-- How many operands the waiting ones use up. -/
def owed (functions : Functions) : List Pending → List Nat → Int
  | [], _ => 0
  | .operator (.binary _) _ :: pending, counts => owed functions pending counts + 1
  | .operator .negate _ :: pending, counts => owed functions pending counts
  | .leftBracket _ :: pending, counts => owed functions pending counts
  | .function name _ :: pending, counts =>
    owed functions pending counts.tail + (callCount functions name counts - 1)

/-- How many operands would be left if all waiting ones went ahead. -/
def State.balance (functions : Functions) (s : State) : Int :=
  s.operands.length - owed functions s.pending s.counts

section

variable {functions : Functions}

theorem callCount_eq {name : String} {entry : Entry Function}
    (hfunction : functions.find? name = some entry) (count : Nat) (counts : List Nat) :
    callCount functions name (count :: counts) = argumentCount entry.content.arity count := by
  rw [callCount, hfunction]
  rfl

/-- A reduction keeps the balance. -/
theorem Reduces.balance_eq {s t : State} (h : Reduces functions s t) :
    t.balance functions = s.balance functions := by
  cases h with
  | negate range => rfl
  | binary op range =>
    simp only [State.balance, owed, List.length_cons]
    omega
  | @call name entry arguments operands pending counts range hfunction hcount =>
    have hcall : callCount functions name counts = arguments.length := by
      rw [callCount, hfunction, hcount]
    simp only [State.balance, owed, hcall, List.length_cons, List.length_append,
      List.length_reverse]
    omega

theorem ReducesAll.balance_eq {s t : State} (h : ReducesAll functions s t) :
    t.balance functions = s.balance functions := by
  induction h with
  | refl => rfl
  | tail _ hreduces ih => rw [hreduces.balance_eq, ih]

theorem balance_pushOperand (s : State) (tree : Tree) :
    (s.pushOperand tree).balance functions = s.balance functions + 1 := by
  simp only [State.balance, State.pushOperand, List.length_cons]
  omega

theorem balance_pushBinary (s : State) (op : BinaryOp) (range : Text.Range) :
    (s.pushPending (.operator (.binary op) range)).balance functions =
      s.balance functions - 1 := by
  simp only [State.balance, State.pushPending, owed]
  omega

theorem balance_pushNegate (s : State) (range : Text.Range) :
    (s.pushPending (.operator .negate range)).balance functions = s.balance functions := rfl

theorem balance_pushBracket (s : State) (range : Text.Range) :
    (s.pushPending (.leftBracket range)).balance functions = s.balance functions := rfl

/-- A call owes its arguments for one operand. -/
theorem balance_function {name : String} {entry : Entry Function}
    (hfunction : functions.find? name = some entry) (range : Text.Range) (operands : List Tree)
    (pending : List Pending) (count : Nat) (counts : List Nat) :
    State.balance functions ⟨operands, .function name range :: pending, count :: counts⟩ +
        argumentCount entry.content.arity count =
      State.balance functions ⟨operands, pending, counts⟩ + 1 := by
  simp only [State.balance, owed, callCount_eq hfunction, List.tail_cons]
  omega

end

/-! ## The enclosing bracket -/

/-- The last left bracket and what waits below it, with the counts of the calls
among that. -/
def enclosing : List Pending → List Nat → List Pending × List Nat
  | [], counts => ([], counts)
  | .leftBracket range :: pending, counts => (.leftBracket range :: pending, counts)
  | .operator _ _ :: pending, counts => enclosing pending counts
  | .function _ _ :: pending, counts => enclosing pending counts.tail

/-- The enclosing bracket of a state. -/
def State.enclosing (s : State) : List Pending × List Nat :=
  Assembly.enclosing s.pending s.counts

theorem Reduces.enclosing_eq {functions : Functions} {s t : State} (h : Reduces functions s t) :
    t.enclosing = s.enclosing := by
  cases h <;> rfl

/-- Reductions stay above the enclosing bracket. -/
theorem ReducesAll.enclosing_eq {functions : Functions} {s t : State}
    (h : ReducesAll functions s t) : t.enclosing = s.enclosing := by
  induction h with
  | refl => rfl
  | tail _ hreduces ih => rw [hreduces.enclosing_eq, ih]

/-- Under the last bracket is what waited when it was opened. -/
theorem stacks_of_enclosing {t : State} {opening opening' : Text.Range} {pending : List Pending}
    {counts : List Nat} (h : (t.pushPending (.leftBracket opening')).enclosing =
      (.leftBracket opening :: pending, counts)) : t.pending = pending ∧ t.counts = counts := by
  obtain ⟨hpending, hcounts⟩ := Prod.mk.inj h
  exact ⟨(List.cons.inj hpending).2, hcounts⟩

/-! ## What tokens add -/

section

variable {scope : Scope}

/-- Whatever the stacks, the tokens leave the enclosing bracket as it is and
add to the balance. -/
def Yields (scope : Scope) (tokens : List Token) (amount : Int) : Prop :=
  ∀ s t, Runs scope tokens s t →
    t.enclosing = s.enclosing ∧
      t.balance scope.functions = s.balance scope.functions + amount

/-- In the brackets of a call, the tokens count as so many arguments.  What
they add to the balance is used up by what the call then takes more. -/
def Fills (scope : Scope) (tokens : List Token) (written : Nat) (amount : Int) : Prop :=
  ∀ s t opening name range entry pending count counts,
    scope.functions.find? name = some entry →
    s.enclosing = (.leftBracket opening :: .function name range :: pending, count :: counts) →
    Runs scope tokens s t →
      t.enclosing = (.leftBracket opening :: .function name range :: pending,
          (count + (written - 1)) :: counts) ∧
        t.balance scope.functions + argumentCount entry.content.arity (count + (written - 1)) =
          s.balance scope.functions + argumentCount entry.content.arity count + amount

theorem yields_of_denotes {token : Token} {tree : Tree} (h : Denotes scope token tree) :
    Yields scope [token] 1 := by
  intro s t hruns
  obtain ⟨middle, htakes, hruns⟩ := hruns.exists_of_cons
  cases hruns
  rw [htakes.eq_of_denotes h]
  exact ⟨rfl, balance_pushOperand s tree⟩

theorem yields_negate (range : Text.Range) {tokens : List Token} {amount : Int}
    (h : Yields scope tokens amount) :
    Yields scope (⟨.operator .negate, range⟩ :: tokens) amount := by
  intro s t hruns
  obtain ⟨next, htakes, hruns⟩ := hruns.exists_of_cons
  obtain ⟨middle, hreduce, rfl⟩ := htakes.exists_of_operator
  have hreduces := (reducesAll_of_reduceWhile hreduce).1
  obtain ⟨henclosing, hbalance⟩ := h _ t hruns
  rw [henclosing, hbalance, balance_pushNegate, ← hreduces.enclosing_eq, ← hreduces.balance_eq]
  exact ⟨rfl, rfl⟩

/-- An operator uses up one of its two operands. -/
theorem yields_binary (op : BinaryOp) (range : Text.Range) {tokens tokens' : List Token}
    {amount amount' : Int} (h : Yields scope tokens amount) (h' : Yields scope tokens' amount') :
    Yields scope (tokens ++ ⟨.operator (.binary op), range⟩ :: tokens')
      (amount + amount' - 1) := by
  intro s t hruns
  obtain ⟨first, hfirst, hruns⟩ := hruns.exists_of_append
  obtain ⟨next, htakes, hruns⟩ := hruns.exists_of_cons
  obtain ⟨middle, hreduce, rfl⟩ := htakes.exists_of_operator
  have hreduces := (reducesAll_of_reduceWhile hreduce).1
  obtain ⟨henclosing, hbalance⟩ := h s first hfirst
  obtain ⟨henclosing', hbalance'⟩ := h' _ t hruns
  refine ⟨?_, ?_⟩
  · rw [henclosing', ← henclosing, ← hreduces.enclosing_eq]
    rfl
  · rw [hbalance', balance_pushBinary, hreduces.balance_eq, hbalance]
    omega

theorem yields_group (opening closing : Text.Range) {tokens : List Token} {amount : Int}
    (h : Yields scope tokens amount) :
    Yields scope (⟨.leftBracket, opening⟩ :: (tokens ++ [⟨.rightBracket, closing⟩])) amount := by
  intro s t hruns
  obtain ⟨next, htakes, hruns⟩ := hruns.exists_of_cons
  obtain ⟨middle, hmiddle, hruns⟩ := hruns.exists_of_append
  obtain ⟨last, hlast, hruns⟩ := hruns.exists_of_cons
  cases hruns
  obtain ⟨opening', hreduces⟩ := hlast.exists_of_rightBracket
  rw [htakes.eq_of_leftBracket] at hmiddle
  obtain ⟨henclosing, hbalance⟩ := h _ middle hmiddle
  -- The bracket that is closed is the one that was opened.
  rw [← hreduces.enclosing_eq] at henclosing
  obtain ⟨hpending, hcounts⟩ := stacks_of_enclosing henclosing
  rw [← hreduces.balance_eq, balance_pushBracket, balance_pushBracket] at hbalance
  refine ⟨?_, hbalance⟩
  rw [State.enclosing, hpending, hcounts]
  rfl

/-- A call adds its result, and the arguments that it does not take. -/
theorem yields_call {name : String} (range opening closing : Text.Range)
    {entry : Entry Function} {tokens : List Token} {written : Nat} {amount : Int}
    (hfunction : scope.functions.find? name = some entry)
    (h : Fills scope tokens written (written + amount)) :
    Yields scope (⟨.identifier name, range⟩ :: ⟨.leftBracket, opening⟩
        :: (tokens ++ [⟨.rightBracket, closing⟩]))
      (1 + (entry.content.arity.surplus written + amount)) := by
  intro s t hruns
  obtain ⟨named, hnamed, hruns⟩ := hruns.exists_of_cons
  obtain ⟨opened, hopened, hruns⟩ := hruns.exists_of_cons
  obtain ⟨middle, hmiddle, hruns⟩ := hruns.exists_of_append
  obtain ⟨last, hlast, hruns⟩ := hruns.exists_of_cons
  cases hruns
  obtain ⟨opening', hreduces⟩ := hlast.exists_of_rightBracket
  rw [hopened.eq_of_leftBracket, hnamed.eq_of_name hfunction] at hmiddle
  obtain ⟨henclosing, hbalance⟩ :=
    h _ middle opening name range entry s.pending 1 s.counts hfunction rfl hmiddle
  rw [← hreduces.enclosing_eq] at henclosing
  obtain ⟨hpending, hcounts⟩ := stacks_of_enclosing henclosing
  refine ⟨?_, ?_⟩
  · rw [State.enclosing, hpending, hcounts]
    rfl
  · have hcall := balance_function hfunction range s.operands s.pending 1 s.counts
    have hlast := hreduces.balance_eq
    rw [balance_pushBracket] at hlast hbalance
    rw [Arity.surplus_eq]
    change _ = State.balance scope.functions ⟨s.operands, s.pending, s.counts⟩ + _
    omega

theorem fills_nil : Fills scope [] 0 0 := by
  intro s t opening name range entry pending count counts _ henclosing hruns
  cases hruns
  exact ⟨henclosing, by simp⟩

/-- The first argument is counted with the call. -/
theorem fills_of_yields {tokens : List Token} {amount : Int} (h : Yields scope tokens amount) :
    Fills scope tokens 1 amount := by
  intro s t opening name range entry pending count counts _ henclosing hruns
  obtain ⟨henclosing', hbalance⟩ := h s t hruns
  refine ⟨henclosing'.trans henclosing, ?_⟩
  rw [hbalance]
  simp only [Nat.sub_self, Nat.add_zero]
  omega

/-- Every other argument is counted with its separator. -/
theorem fills_more (separator : Text.Range) {tokens tokens' : List Token} {written : Nat}
    {amount amount' : Int} (hsome : 0 < written) (h : Fills scope tokens written amount)
    (h' : Yields scope tokens' amount') :
    Fills scope (tokens ++ ⟨.separator, separator⟩ :: tokens') (written + 1)
      (amount + amount') := by
  intro s t opening name range entry pending count counts hfunction henclosing hruns
  obtain ⟨first, hfirst, hruns⟩ := hruns.exists_of_append
  obtain ⟨next, htakes, hruns⟩ := hruns.exists_of_cons
  obtain ⟨opening', operands, pending', count', counts', hreduces, rfl⟩ :=
    htakes.exists_of_separator
  obtain ⟨henclosing₁, hbalance₁⟩ :=
    h s first opening name range entry pending count counts hfunction henclosing hfirst
  rw [← hreduces.enclosing_eq] at henclosing₁
  obtain ⟨hpending, hcounts⟩ := Prod.mk.inj henclosing₁
  cases hpending
  cases hcounts
  obtain ⟨henclosing₂, hbalance₂⟩ := h' _ t hruns
  have hwritten : count + (written + 1 - 1) = count + (written - 1) + 1 := by omega
  rw [hwritten]
  refine ⟨henclosing₂, ?_⟩
  -- The separator changes the count of the call, and nothing else.
  have hbefore := balance_function hfunction range operands pending (count + (written - 1)) counts
  have hafter := balance_function hfunction range operands pending (count + (written - 1) + 1)
    counts
  have hreduced := hreduces.balance_eq
  change State.balance scope.functions ⟨operands, .function name range :: pending, _⟩ = _
    at hreduced
  change _ = State.balance scope.functions ⟨operands, .function name range :: pending, _⟩ + _
    at hbalance₂
  omega

/-- Tokens that write down trees add one operand for each, and one for each
argument that is too many. -/
theorem adds_of_inOrder {tokens : List Token} {trees : List Tree}
    (h : InOrder scope tokens trees) :
    (∀ tree, trees = [tree] → Yields scope tokens (1 + tree.totalSurplus scope.functions)) ∧
      Fills scope tokens trees.length
        (trees.length + (trees.map (Tree.totalSurplus scope.functions)).sum) := by
  have hone : ∀ {tokens : List Token} {tree : Tree},
      Yields scope tokens (1 + tree.totalSurplus scope.functions) →
      (∀ tree', [tree] = [tree'] →
        Yields scope tokens (1 + tree'.totalSurplus scope.functions)) ∧
        Fills scope tokens [tree].length
          ([tree].length + ([tree].map (Tree.totalSurplus scope.functions)).sum) := by
    intro tokens tree hyields
    refine ⟨fun tree' heq => List.singleton_inj.mp heq ▸ hyields, ?_⟩
    simpa using fills_of_yields hyields
  induction h with
  | operand h =>
    apply hone
    rw [Tree.totalSurplus_of_denotes _ h]
    exact yields_of_denotes h
  | negate range _ ih =>
    apply hone
    rw [Tree.totalSurplus_negate]
    exact yields_negate range (ih.1 _ rfl)
  | binary op range _ _ ih ih' =>
    apply hone
    have hyields := yields_binary op range (ih.1 _ rfl) (ih'.1 _ rfl)
    rw [Tree.totalSurplus_binary]
    convert hyields using 1
    omega
  | group opening closing _ ih => exact hone (yields_group opening closing (ih.1 _ rfl))
  | call range opening closing hfunction _ ih =>
    apply hone
    rw [Tree.totalSurplus_call hfunction]
    exact yields_call range opening closing hfunction ih.2
  | nil => exact ⟨nofun, fills_nil⟩
  | @more range tokens tokens' arguments argument hsome _ _ ih ih' =>
    refine ⟨fun tree heq => ?_, ?_⟩
    · exact absurd (List.append_eq_singleton_iff.mp heq) (by simp [hsome])
    · have hfills := fills_more range (List.length_pos_iff.mpr hsome) ih.2 (ih'.1 _ rfl)
      have hamount : ((arguments ++ [argument]).length : Int) +
          ((arguments ++ [argument]).map (Tree.totalSurplus scope.functions)).sum =
            arguments.length + (arguments.map (Tree.totalSurplus scope.functions)).sum +
              (1 + argument.totalSurplus scope.functions) := by
        simp only [List.length_append, List.map_append, List.sum_append, List.length_singleton,
          List.map_singleton, List.sum_singleton]
        omega
      rw [hamount, List.length_append]
      exact hfills

end

/-! ## Accepted formulas -/

section

variable {scope : Scope} {tokens : List Token} {written : Tree}

/-- In an accepted formula as many arguments are too many as are missing. -/
theorem totalSurplus_of_ofTokens (h : InOrder scope tokens [written]) {tree : Tree}
    (hok : Tree.ofTokens scope tokens = .ok tree) : written.totalSurplus scope.functions = 0 := by
  obtain ⟨s, counts, hruns, hreduces⟩ := exists_runs_of_ofTokens hok
  obtain ⟨_, hbalance⟩ := (adds_of_inOrder h).1 written rfl .start s hruns
  have hlast := hreduces.balance_eq
  have hend : State.balance scope.functions ⟨[tree], [], counts⟩ = 1 := rfl
  have hstart : State.balance scope.functions .start = 0 := rfl
  omega

/-- Then every call has the arguments that it takes, unless some have too many
and others too few. -/
theorem isExact_of_ofTokens (h : InOrder scope tokens [written])
    (hsided : written.IsOneSided scope.functions) {tree : Tree}
    (hok : Tree.ofTokens scope tokens = .ok tree) : written.IsExact scope.functions := by
  have hsum := totalSurplus_of_ofTokens h hok
  rw [Tree.totalSurplus] at hsum
  intro call hcall
  have hmem : surplus scope.functions call ∈ written.calls.map (surplus scope.functions) :=
    List.mem_map_of_mem hcall
  rcases hsided with hmany | hfew
  · have hsurplus : ∀ i ∈ written.calls.map (surplus scope.functions), i ≤ 0 :=
      List.forall_mem_map.mpr hmany
    exact @List.all_zero_of_le_zero_le_of_sum_eq_zero Intᵒᵈ _ _ _ _ hsurplus hsum _ hmem
  · have hsurplus : ∀ i ∈ written.calls.map (surplus scope.functions), 0 ≤ i :=
      List.forall_mem_map.mpr hfew
    exact List.all_zero_of_le_zero_le_of_sum_eq_zero hsurplus hsum hmem

/-- Calls take the arguments in their brackets.  A formula whose calls have
too many arguments, or too few, is refused, however deep the calls are, and an
accepted one reads as the tree whose calls have the arguments that are written
in their brackets.  This is so as long as there are not both calls with too
many arguments and calls with too few in one formula. -/
theorem calls_take_their_arguments (h : InOrder scope tokens [written])
    (hsided : written.IsOneSided scope.functions) :
    ((∃ tree, Tree.ofTokens scope tokens = .ok tree) ↔ written.IsExact scope.functions) ∧
      ∀ tree, Tree.ofTokens scope tokens = .ok tree →
        ∃ first links, Reads scope tokens (.chain first links) ∧ tree = arrange first links := by
  constructor
  · constructor
    · rintro ⟨tree, hok⟩
      exact isExact_of_ofTokens h hsided hok
    · intro hexact
      obtain ⟨first, links, hreads⟩ := reads_of_inOrder h hexact
      exact ⟨_, ofTokens_of_chain hreads⟩
  · intro tree hok
    obtain ⟨first, links, hreads⟩ := reads_of_inOrder h (isExact_of_ofTokens h hsided hok)
    exact ⟨first, links, hreads, eq_arrange_of_ofTokens hreads hok⟩

end

/-- A function of so many arguments. -/
def ofArity (count : Nat) : Function := ⟨.fixed count, true, fun _ => .ok .zero⟩

/-- Functions `sin` of one argument and `if` of three, and no constants. -/
def sinAndIf : Scope :=
  ⟨.ofLocked false [("sin", ofArity 1), ("if", ofArity 3)], .empty false, false⟩

theorem find?_sin : sinAndIf.functions.find? "sin" = some ⟨"sin", ofArity 1, false⟩ := rfl

theorem find?_if : sinAndIf.functions.find? "if" = some ⟨"if", ofArity 3, false⟩ := rfl

theorem inOrder_pair (first second : Int64) :
    InOrder sinAndIf (placed [.integer first, .separator, .integer second])
      [.integer first, .integer second] :=
  .more _ (List.cons_ne_nil _ _) (.operand (.integer first _)) (.operand (.integer second _))

/-- The formula `if(sin(1, 2), 3, 4)`. -/
def surplusTokens : List Token :=
  placed [.identifier "if", .leftBracket, .identifier "sin", .leftBracket, .integer 1, .separator,
    .integer 2, .rightBracket, .separator, .integer 3, .separator, .integer 4, .rightBracket]

/-- It is written with one argument too many for `sin`. -/
def surplusTree : Tree :=
  .call "if" true [.call "sin" true [.integer 1, .integer 2], .integer 3, .integer 4]

theorem calls_take_their_arguments_of_surplus :
    InOrder sinAndIf surplusTokens [surplusTree] ∧ surplusTree.IsOneSided sinAndIf.functions ∧
      ¬∃ tree, Tree.ofTokens sinAndIf surplusTokens = .ok tree := by
  have horder : InOrder sinAndIf surplusTokens [surplusTree] :=
    .call _ _ _ find?_if (.more _ (List.cons_ne_nil _ _)
      (.more _ (List.cons_ne_nil _ _) (.call _ _ _ find?_sin (inOrder_pair 1 2))
        (.operand (.integer 3 _)))
      (.operand (.integer 4 _)))
  have hsided : surplusTree.IsOneSided sinAndIf.functions := by decide
  refine ⟨horder, hsided, ?_⟩
  rw [(calls_take_their_arguments horder hsided).1]
  decide

/-- The formula `sin(1, if(2, 3))`. -/
def lentTokens : List Token :=
  placed [.identifier "sin", .leftBracket, .integer 1, .separator, .identifier "if", .leftBracket,
    .integer 2, .separator, .integer 3, .rightBracket, .rightBracket]

/-- It is written with one argument too many for `sin`, and one too few for
`if`. -/
def lentTree : Tree :=
  .call "sin" true [.integer 1, .call "if" true [.integer 2, .integer 3]]

/-- The formula is accepted, because `sin` lends an argument to `if`. -/
theorem lent_argument :
    InOrder sinAndIf lentTokens [lentTree] ∧ ¬lentTree.IsExact sinAndIf.functions ∧
      Tree.ofTokens sinAndIf lentTokens =
        .ok (.call "sin" true [.call "if" true [.integer 1, .integer 2, .integer 3]]) := by
  refine ⟨?_, by decide, by with_unfolding_all rfl⟩
  exact .call _ _ _ find?_sin (.more _ (List.cons_ne_nil _ _) (.operand (.integer 1 _))
    (.call _ _ _ find?_if (inOrder_pair 2 3)))

end Assembly

end FormulaEngine
