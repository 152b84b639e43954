import FormulaEngine.Proofs.Assembly.Steps
import FormulaEngine.Proofs.Tree.Names

/-!
# The order of the tokens of a tree

`InOrder` says that a list of tokens writes down a tree: every operator stands
between the tokens of its operands, every minus sign before those of its
operand, and every call has the tokens of its arguments in its brackets.  Two
things are left open that `Reads` decides.  The operators may bind in any way,
and a call may be written with any number of arguments.

`Tree.calls` lists the calls of a tree with the numbers of their arguments, and
`surplus` is how many of them a call has too many.  Tokens that write down a
tree without surplus are a formula (`reads_of_inOrder`), and the tokens of a
formula write down its tree (`writesDown_of_reads`).
-/

namespace FormulaEngine

/-! ## Surplus arguments -/

/-- How many of the arguments that a call is written with are too many; a
negative number says that so many are missing. -/
def Arity.surplus : Arity → Nat → Int
  | .fixed count, written => written - count
  | .dynamic, written => written - (max 1 written : Nat)

theorem Arity.surplus_eq_zero_iff {arity : Arity} {written : Nat} :
    arity.surplus written = 0 ↔ arity.Admits written := by
  cases arity with
  | fixed count =>
    show ((written : Int) - count = 0) ↔ written = count
    omega
  | dynamic =>
    show ((written : Int) - (max 1 written : Nat) = 0) ↔ 1 ≤ written
    omega

/-- The arguments that are too many are those that the call does not take. -/
theorem Arity.surplus_eq (arity : Arity) (written : Nat) :
    arity.surplus written =
      written - (Assembly.argumentCount arity (1 + (written - 1)) : Nat) := by
  cases arity with
  | fixed count => rfl
  | dynamic =>
    show (written : Int) - (max 1 written : Nat) = written - (1 + (written - 1) : Nat)
    omega

theorem Arity.surplus_mono (arity : Arity) {written written' : Nat} (h : written ≤ written') :
    arity.surplus written ≤ arity.surplus written' := by
  cases arity with
  | fixed count =>
    show (written : Int) - count ≤ written' - count
    omega
  | dynamic =>
    show (written : Int) - (max 1 written : Nat) ≤ written' - (max 1 written' : Nat)
    omega

/-- The surplus of a call, given by its name and the number of its arguments. -/
def surplus (functions : Functions) (call : String × Nat) : Int :=
  match functions.find? call.1 with
  | some entry => entry.content.arity.surplus call.2
  | none => 0

theorem surplus_name {functions : Functions} {name : String} {entry : Entry Function}
    (hfunction : functions.find? name = some entry) (written : Nat) :
    surplus functions (entry.name, written) = entry.content.arity.surplus written := by
  rw [surplus, Registry.find?_name hfunction]

namespace Tree

/-- The name of a call and the number of its arguments. -/
def call? : Tree → Option (String × Nat)
  | .call name _ arguments => some (name, arguments.length)
  | _ => none

/-- The calls in a tree, with the numbers of their arguments. -/
def calls (tree : Tree) : List (String × Nat) := tree.subtrees.filterMap call?

@[simp] theorem calls_binary (op : BinaryOp) (left right : Tree) :
    (binary op left right).calls = left.calls ++ right.calls := by
  rw [calls, subtrees, List.filterMap_cons_none rfl, List.filterMap_append]
  rfl

@[simp] theorem calls_negate (argument : Tree) : (negate argument).calls = argument.calls := rfl

@[simp] theorem calls_call (name : String) (idempotent : Bool) (arguments : List Tree) :
    (call name idempotent arguments).calls =
      (name, arguments.length) :: arguments.flatMap calls := by
  have hcall : call? (call name idempotent arguments) = some (name, arguments.length) := rfl
  rw [calls, subtrees, List.filterMap_cons_some hcall, allSubtrees_eq, List.filterMap_flatMap]
  rfl

/-- Every call has a number of arguments that its function takes. -/
def IsExact (functions : Functions) (tree : Tree) : Prop :=
  ∀ call ∈ tree.calls, surplus functions call = 0

instance (functions : Functions) (tree : Tree) : Decidable (tree.IsExact functions) :=
  inferInstanceAs (Decidable (∀ call ∈ tree.calls, surplus functions call = 0))

theorem isExact_binary_iff {functions : Functions} {op : BinaryOp} {left right : Tree} :
    (binary op left right).IsExact functions ↔
      left.IsExact functions ∧ right.IsExact functions := by
  rw [IsExact, calls_binary, List.forall_mem_append]
  rfl

/-- A call is exact if its arguments are, and there are as many as it takes. -/
theorem isExact_call_iff {functions : Functions} {name : String} {entry : Entry Function}
    (hfunction : functions.find? name = some entry) {idempotent : Bool} {arguments : List Tree} :
    (call entry.name idempotent arguments).IsExact functions ↔
      entry.content.arity.Admits arguments.length ∧
        ∀ argument ∈ arguments, argument.IsExact functions := by
  rw [IsExact, calls_call, List.forall_mem_cons, surplus_name hfunction,
    Arity.surplus_eq_zero_iff]
  simp only [List.forall_mem_flatMap]
  rfl

end Tree

namespace Assembly

open Grammar

/-! ## Tokens in order -/

/-- The tokens write down the trees, with separators between them.  Tokens may
stand anywhere in the text. -/
inductive InOrder (scope : Scope) : List Token → List Tree → Prop where
  | operand {token : Token} {tree : Tree} (h : Denotes scope token tree) :
      InOrder scope [token] [tree]
  | negate (range : Text.Range) {tokens : List Token} {argument : Tree}
      (h : InOrder scope tokens [argument]) :
      InOrder scope (⟨.operator .negate, range⟩ :: tokens) [.negate argument]
  | binary (op : BinaryOp) (range : Text.Range) {tokens tokens' : List Token}
      {left right : Tree} (h : InOrder scope tokens [left]) (h' : InOrder scope tokens' [right]) :
      InOrder scope (tokens ++ ⟨.operator (.binary op), range⟩ :: tokens')
        [.binary op left right]
  | group (opening closing : Text.Range) {tokens : List Token} {tree : Tree}
      (h : InOrder scope tokens [tree]) :
      InOrder scope (⟨.leftBracket, opening⟩ :: (tokens ++ [⟨.rightBracket, closing⟩])) [tree]
  | call {name : String} (range opening closing : Text.Range) {entry : Entry Function}
      {tokens : List Token} {arguments : List Tree}
      (hfunction : scope.functions.find? name = some entry)
      (h : InOrder scope tokens arguments) :
      InOrder scope (⟨.identifier name, range⟩ :: ⟨.leftBracket, opening⟩
          :: (tokens ++ [⟨.rightBracket, closing⟩]))
        [.call entry.name entry.content.isIdempotent arguments]
  | nil : InOrder scope [] []
  | more (range : Text.Range) {tokens tokens' : List Token} {arguments : List Tree}
      {argument : Tree} (hsome : arguments ≠ []) (h : InOrder scope tokens arguments)
      (h' : InOrder scope tokens' [argument]) :
      InOrder scope (tokens ++ ⟨.separator, range⟩ :: tokens') (arguments ++ [argument])

/-! ## Formulas -/

section

variable {scope : Scope}

theorem reads_of_denotes {token : Token} {tree : Tree} (h : Denotes scope token tree) :
    Reads scope [token] (.operand tree) := by
  cases h with
  | integer value range => exact .integer value range
  | decimal value range => exact .decimal value range
  | constantName range hfunction hconstant => exact .constantName range hfunction hconstant
  | variableName range hfunction hconstant => exact .variableName range hfunction hconstant

/-- A minus sign before a chain belongs to its first operand. -/
theorem reads_negate_chain (range : Text.Range) {tokens : List Token} {first : Tree}
    {links : List Link} (h : Reads scope tokens (.chain first links)) :
    Reads scope (⟨.operator .negate, range⟩ :: tokens) (.chain (.negate first) links) := by
  generalize hphrase : Phrase.chain first links = phrase at h
  induction h generalizing links with
  | single h _ =>
    cases hphrase
    exact .single (.negate range h)
  | longer op operator _ h' ih _ =>
    cases hphrase
    exact .longer op operator (ih rfl) h'
  | _ => cases hphrase

/-- Two chains with an operator between them are a chain. -/
theorem reads_append_chain (op : BinaryOp) (range : Text.Range) {tokens tokens' : List Token}
    {first first' : Tree} {links links' : List Link}
    (h : Reads scope tokens (.chain first links))
    (h' : Reads scope tokens' (.chain first' links')) :
    Reads scope (tokens ++ ⟨.operator (.binary op), range⟩ :: tokens')
      (.chain first (links ++ ⟨op, first'⟩ :: links')) := by
  generalize hphrase : Phrase.chain first' links' = phrase at h'
  induction h' generalizing links' with
  | single h' _ =>
    cases hphrase
    exact .longer op range h h'
  | longer next operator _ h'' ih _ =>
    cases hphrase
    have hlonger := Reads.longer next operator (ih rfl) h''
    rwa [List.append_assoc, List.append_assoc] at hlonger
  | _ => cases hphrase

/-- Exact trees are written down by formulas, and lists of them by arguments. -/
theorem reads_of_inOrder_list {tokens : List Token} {trees : List Tree}
    (h : InOrder scope tokens trees) (hexact : ∀ tree ∈ trees, tree.IsExact scope.functions) :
    (∀ tree, trees = [tree] → ∃ first links, Reads scope tokens (.chain first links)) ∧
      ∃ arguments, Reads scope tokens (.arguments arguments) ∧
        arguments.length = trees.length := by
  have hargument : ∀ {tokens : List Token} {tree : Tree},
      (∃ first links, Reads scope tokens (.chain first links)) →
      (∀ tree', [tree] = [tree'] → ∃ first links, Reads scope tokens (.chain first links)) ∧
        ∃ arguments, Reads scope tokens (.arguments arguments) ∧
          arguments.length = [tree].length := by
    rintro tokens tree ⟨first, links, hchain⟩
    exact ⟨fun _ _ => ⟨first, links, hchain⟩, _, .argument hchain, rfl⟩
  induction h with
  | operand h => exact hargument ⟨_, _, .single (reads_of_denotes h)⟩
  | negate range _ ih =>
    obtain ⟨first, links, hchain⟩ := (ih (by simpa [Tree.IsExact] using hexact)).1 _ rfl
    exact hargument ⟨_, _, reads_negate_chain range hchain⟩
  | binary op range _ _ ih ih' =>
    rw [List.forall_mem_singleton, Tree.isExact_binary_iff] at hexact
    obtain ⟨first, links, hchain⟩ := (ih (List.forall_mem_singleton.mpr hexact.1)).1 _ rfl
    obtain ⟨first', links', hchain'⟩ := (ih' (List.forall_mem_singleton.mpr hexact.2)).1 _ rfl
    exact hargument ⟨_, _, reads_append_chain op range hchain hchain'⟩
  | group opening closing _ ih =>
    obtain ⟨first, links, hchain⟩ := (ih hexact).1 _ rfl
    exact hargument ⟨_, _, .single (.group opening closing hchain)⟩
  | call range opening closing hfunction _ ih =>
    rw [List.forall_mem_singleton, Tree.isExact_call_iff hfunction] at hexact
    obtain ⟨arguments, hreads, hlength⟩ := (ih hexact.2).2
    exact hargument ⟨_, _, .single (.call range opening closing hfunction
      (hlength ▸ hexact.1) hreads)⟩
  | nil => exact ⟨nofun, [], .noArguments, rfl⟩
  | more range hsome _ _ ih ih' =>
    rw [List.forall_mem_append] at hexact
    obtain ⟨arguments, hreads, hlength⟩ := (ih hexact.1).2
    obtain ⟨first, links, hchain⟩ := (ih' hexact.2).1 _ rfl
    have hsome' : arguments ≠ [] := by
      rintro rfl
      exact hsome (List.length_eq_zero_iff.mp hlength.symm)
    refine ⟨fun tree heq => ?_, _, .moreArguments range hsome' hreads hchain, ?_⟩
    · exact absurd (List.append_eq_singleton_iff.mp heq) (by simp [hsome])
    · rw [List.length_append, List.length_append, hlength]
      rfl

/-- Tokens that write down an exact tree are a formula. -/
theorem reads_of_inOrder {tokens : List Token} {tree : Tree} (h : InOrder scope tokens [tree])
    (hexact : tree.IsExact scope.functions) :
    ∃ first links, Reads scope tokens (.chain first links) :=
  (reads_of_inOrder_list h (List.forall_mem_singleton.mpr hexact)).1 tree rfl

/-- A formula is assembled to one tree only. -/
theorem eq_arrange_of_ofTokens {tokens : List Token} {first tree : Tree} {links : List Link}
    (h : Reads scope tokens (.chain first links)) (hok : Tree.ofTokens scope tokens = .ok tree) :
    tree = arrange first links := by
  rw [ofTokens_of_chain h] at hok
  exact (Except.ok.inj hok).symm

end

/-! ## The order of a formula -/

/-- The tokens write down the operands of a chain, with its operators between
them. -/
inductive InChain (scope : Scope) : List Token → Tree → List Link → Prop where
  | single {tokens : List Token} {first : Tree} (h : InOrder scope tokens [first]) :
      InChain scope tokens first []
  | longer (op : BinaryOp) (range : Text.Range) {tokens tokens' : List Token}
      {first operand : Tree} {links : List Link} (h : InOrder scope tokens [first])
      (h' : InChain scope tokens' operand links) :
      InChain scope (tokens ++ ⟨.operator (.binary op), range⟩ :: tokens') first
        (⟨op, operand⟩ :: links)

section

variable {scope : Scope}

theorem InChain.append (op : BinaryOp) (range : Text.Range) {tokens tokens' : List Token}
    {first operand : Tree} {links : List Link} (h : InChain scope tokens first links)
    (h' : InOrder scope tokens' [operand]) :
    InChain scope (tokens ++ ⟨.operator (.binary op), range⟩ :: tokens') first
      (links ++ [⟨op, operand⟩]) := by
  induction h with
  | single h => exact .longer op range h (.single h')
  | longer op' range' h _ ih =>
    rw [List.append_assoc]
    exact .longer op' range' h ih

/-- A chain can be taken apart at each of its operators. -/
theorem InChain.exists_split {tokens : List Token} {first : Tree} {before after : List Link}
    {link : Link} (h : InChain scope tokens first (before ++ link :: after)) :
    ∃ tokens₁ range tokens₂, tokens = tokens₁ ++ ⟨.operator (.binary link.op), range⟩ :: tokens₂ ∧
      InChain scope tokens₁ first before ∧ InChain scope tokens₂ link.operand after := by
  induction before generalizing tokens first with
  | nil =>
    cases h with
    | longer op range h h' => exact ⟨_, range, _, rfl, .single h, h'⟩
  | cons head before ih =>
    cases h with
    | longer op range h h' =>
      obtain ⟨tokens₁, range', tokens₂, rfl, hbefore, hafter⟩ := ih h'
      exact ⟨_, range', tokens₂, by simp, .longer op range h hbefore, hafter⟩

/-- Every operator of a chain stands between the operands that the rule gives
it. -/
theorem InChain.inOrder {tokens : List Token} {first : Tree} {links : List Link}
    (h : InChain scope tokens first links) : InOrder scope tokens [arrange first links] := by
  induction first, links using arrange.induct generalizing tokens with
  | case1 first links hcut =>
    cases h with
    | single h =>
      rw [arrange_nil]
      exact h
    | longer op range h h' =>
      obtain ⟨before, link, after, heq, hsplit⟩ := exists_splitsAt (List.cons_ne_nil _ _)
      rw [heq, cut_of_splitsAt hsplit] at hcut
      cases hcut
  | case2 first links before link after hcut ih ih' =>
    obtain ⟨rfl, hsplit⟩ := splitsAt_of_cut hcut
    obtain ⟨tokens₁, range, tokens₂, rfl, hbefore, hafter⟩ := h.exists_split
    rw [arrange_of_splitsAt first link hsplit]
    exact .binary link.op range (ih hbefore) (ih' hafter)

/-- The tokens write down what a phrase reads as. -/
def WritesDown (scope : Scope) (tokens : List Token) : Phrase → Prop
  | .operand tree => InOrder scope tokens [tree]
  | .chain first links => InChain scope tokens first links
  | .arguments arguments => InOrder scope tokens arguments

/-- The tokens of a formula write down its tree. -/
theorem writesDown_of_reads {tokens : List Token} {phrase : Phrase}
    (h : Reads scope tokens phrase) : WritesDown scope tokens phrase := by
  induction h with
  | integer value range => exact .operand (.integer value range)
  | decimal value range => exact .operand (.decimal value range)
  | constantName range hfunction hconstant =>
    exact .operand (.constantName range hfunction hconstant)
  | variableName range hfunction hconstant =>
    exact .operand (.variableName range hfunction hconstant)
  | negate range _ ih => exact .negate range ih
  | group opening closing _ ih => exact .group opening closing ih.inOrder
  | call range opening closing hfunction _ _ ih => exact .call range opening closing hfunction ih
  | single _ ih => exact .single ih
  | longer op range _ _ ih ih' => exact ih.append op range ih'
  | noArguments => exact .nil
  | argument _ ih => exact ih.inOrder
  | moreArguments range hsome _ _ ih ih' => exact .more range hsome ih ih'.inOrder

end

end Assembly

end FormulaEngine
