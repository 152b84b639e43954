import FormulaEngine.Proofs.Assembly.Reading
import FormulaEngine.Proofs.Folding.FixedPoint
import FormulaEngine.Proofs.Program.Agreement
import FormulaEngine.Tree.Reader

/-!
# What a formula takes from its functions

A formula uses its functions in three ways before it is ever called.

* Its text is read with their signatures: `read_congr`.
* The calls that are folded run them: `simplify_congr`.  `Tree.foldedNames`
  are the names of these functions.
* Its program holds the locked ones: `ofTree_congr`.

Two tables of functions that agree so far give the same formula.  All other
uses are calls by name, at the time of a run.
-/

namespace FormulaEngine

/-! ## Reading -/

/-- Two entries that calls in a text cannot tell apart. -/
structure Entry.SameSignature (entry other : Entry Function) : Prop where
  name : other.name = entry.name
  arity : other.content.arity = entry.content.arity
  isIdempotent : other.content.isIdempotent = entry.content.isIdempotent

/-- Two entries that programs cannot tell apart, unless they call them.  An
overwritable function may be another one. -/
structure Entry.SameKind (entry other : Entry Function) : Prop
    extends entry.SameSignature other where
  isOverwritable : other.isOverwritable = entry.isOverwritable
  locked : entry.isOverwritable = false → other = entry

/-- Two tables with the same names and signatures. -/
def SameSignatures (functions other : Functions) : Prop :=
  ∀ name, Option.Rel Entry.SameSignature (functions.find? name) (other.find? name)

/-- Two tables with the same names, signatures and locked functions. -/
def SameKinds (functions other : Functions) : Prop :=
  ∀ name, Option.Rel Entry.SameKind (functions.find? name) (other.find? name)

theorem SameKinds.sameSignatures {functions other : Functions} (h : SameKinds functions other) :
    SameSignatures functions other := by
  intro name
  have hrel := h name
  generalize functions.find? name = entry, other.find? name = entry' at hrel ⊢
  cases hrel with
  | none => exact .none
  | some hsame => exact .some hsame.toSameSignature

namespace Assembly

variable {functions other : Functions} (h : SameSignatures functions other)

include h

theorem reduceFunction_congr : reduceFunction other = reduceFunction functions := by
  funext name range s
  have hrel := h name
  rw [reduceFunction, reduceFunction]
  generalize functions.find? name = entry, other.find? name = entry' at hrel ⊢
  cases hrel with
  | none => rfl
  | some hsame =>
    dsimp only
    rw [hsame.name, hsame.arity, hsame.isIdempotent]

theorem reduceTop_congr : reduceTop other = reduceTop functions := by
  funext s
  rw [reduceTop, reduceTop, reduceFunction_congr h]

theorem reduceWhile_congr (goesAhead : Pending → Bool) (s : State) :
    reduceWhile other goesAhead s = reduceWhile functions goesAhead s := by
  induction s using reduceWhile.induct functions goesAhead with
  | case1 s hpending =>
    have hstay : ∀ top ∈ s.pending.head?, goesAhead top = false := by
      rw [hpending]
      nofun
    rw [reduceWhile_of_head hstay, reduceWhile_of_head hstay]
  | case2 s top rest hpending hahead e hreduce =>
    rw [reduceWhile_of_error hpending hahead hreduce,
      reduceWhile_of_error hpending hahead (reduceTop_congr h ▸ hreduce)]
  | case3 s top rest hpending hahead t hreduce ih =>
    rw [reduceWhile_of_reduceTop hpending hahead hreduce,
      reduceWhile_of_reduceTop hpending hahead (reduceTop_congr h ▸ hreduce), ih]
  | case4 s top rest hpending hstop =>
    have hstay : ∀ top ∈ s.pending.head?, goesAhead top = false := by
      rw [hpending]
      intro first hfirst
      cases hfirst
      exact Bool.not_eq_true _ ▸ hstop
    rw [reduceWhile_of_head hstay, reduceWhile_of_head hstay]

variable {constants : Constants} {caseSensitive : Bool}

theorem accept_congr (s : State) (token : Token) :
    s.accept ⟨other, constants, caseSensitive⟩ token =
      s.accept ⟨functions, constants, caseSensitive⟩ token := by
  have hisSome : ∀ name, (other.find? name).isSome = (functions.find? name).isSome := by
    intro name
    have hrel := h name
    generalize functions.find? name = entry, other.find? name = entry' at hrel ⊢
    cases hrel <;> rfl
  rw [State.accept, State.accept]
  cases token.kind with
  | integer value => rfl
  | decimal value => rfl
  | identifier name =>
    dsimp only
    rw [acceptIdentifier, acceptIdentifier, hisSome]
  | leftBracket => rfl
  | rightBracket =>
    dsimp only
    rw [acceptRightBracket, acceptRightBracket, reduceToBracket, reduceToBracket,
      reduceWhile_congr h]
  | separator =>
    dsimp only
    rw [acceptSeparator, acceptSeparator, reduceToBracket, reduceToBracket, reduceWhile_congr h]
  | operator op =>
    dsimp only
    rw [acceptOperator, acceptOperator, reduceWhile_congr h]

theorem acceptAll_congr (s : State) (tokens : List Token) :
    s.acceptAll ⟨other, constants, caseSensitive⟩ tokens =
      s.acceptAll ⟨functions, constants, caseSensitive⟩ tokens := by
  induction tokens generalizing s with
  | nil => rfl
  | cons token tokens ih =>
    rw [State.acceptAll, State.acceptAll, accept_congr h]
    cases s.accept ⟨functions, constants, caseSensitive⟩ token with
    | error e => rfl
    | ok t => exact ih t

theorem finish_congr (s : State) : s.finish other = s.finish functions := by
  rw [State.finish, State.finish, reduceToBracket, reduceToBracket, reduceWhile_congr h]

end Assembly

/-- Tokens are assembled with the signatures of the functions only. -/
theorem ofTokens_congr {functions other : Functions} (h : SameSignatures functions other)
    (constants : Constants) (caseSensitive : Bool) (tokens : List Token) :
    Tree.ofTokens ⟨other, constants, caseSensitive⟩ tokens =
      Tree.ofTokens ⟨functions, constants, caseSensitive⟩ tokens := by
  rw [Tree.ofTokens, Tree.ofTokens, Assembly.acceptAll_congr h]
  simp only [Assembly.finish_congr h]

/-- A text is read with the signatures of the functions only. -/
theorem read_congr {functions other : Functions} (h : SameSignatures functions other)
    (p : Punctuation) (constants : Constants) (caseSensitive : Bool) (text : String) :
    Tree.read p ⟨other, constants, caseSensitive⟩ text =
      Tree.read p ⟨functions, constants, caseSensitive⟩ text := by
  rw [Tree.read, Tree.read]
  simp only [ofTokens_congr h]

namespace Tree

/-! ## Evaluating -/

variable {functions other : Functions}

/-- Functions that agree on the called names give a tree the same result. -/
theorem evaluate_congr (vars : Variables) {tree : Tree}
    (h : ∀ name ∈ tree.functionNames, other.find? name = functions.find? name) :
    tree.evaluate other vars = tree.evaluate functions vars := by
  rw [evaluate_eq_valueUnder, evaluate_eq_valueUnder]
  induction tree with
  | integer _ | decimal _ | var _ => rfl
  | binary op left right ihl ihr =>
    rw [valueUnder, valueUnder, ihl fun name hn => h name (by simp [hn]),
      ihr fun name hn => h name (by simp [hn])]
  | negate argument ih => rw [valueUnder, valueUnder, ih h]
  | call name idempotent arguments ih =>
    have harguments : valuesUnder other vars.get arguments
        = valuesUnder functions vars.get arguments := by
      refine valuesUnder_congr (List.forall₂_same.mpr ?_)
      intro argument hmem
      exact ih argument hmem fun name hn =>
        h name (by simpa using Or.inr ⟨argument, hmem, hn⟩)
    rw [valueUnder, valueUnder, harguments, h name (by simp)]

/-! ## Folding -/

/-- The functions that are called in the subtrees that a pass folds. -/
def foldedNames (tree : Tree) : List String :=
  (tree.visited.filter isFoldable).flatMap functionNames

theorem mem_foldedNames {tree : Tree} {name : String} :
    name ∈ tree.foldedNames ↔
      ∃ node ∈ tree.visited, node.isFoldable = true ∧ name ∈ node.functionNames := by
  simp [foldedNames, and_assoc]

theorem self_mem_visited (tree : Tree) : tree ∈ tree.visited := by
  cases tree <;> simp [visited]

theorem foldedNames_subset {tree node : Tree} (h : node.visited ⊆ tree.visited) :
    node.foldedNames ⊆ tree.foldedNames := by
  intro name hname
  obtain ⟨folded, hfolded, hcalled⟩ := mem_foldedNames.mp hname
  exact mem_foldedNames.mpr ⟨folded, h hfolded, hcalled⟩

theorem simplifyAll_congr {trees : List Tree}
    (h : ∀ tree ∈ trees, tree.simplify other = tree.simplify functions) :
    simplifyAll other trees = simplifyAll functions trees := by
  induction trees with
  | nil => rw [simplifyAll, simplifyAll]
  | cons tree trees ih =>
    rw [List.forall_mem_cons] at h
    rw [simplifyAll, simplifyAll, h.1, ih h.2]

/-- A tree that is folded becomes the same value. -/
theorem simplify_congr_of_isFoldable {tree : Tree} (hfold : tree.isFoldable = true)
    (h : ∀ name ∈ tree.foldedNames, other.find? name = functions.find? name) :
    tree.simplify other = tree.simplify functions := by
  have hvalue : tree.evaluate other .empty = tree.evaluate functions .empty :=
    evaluate_congr .empty fun name hname =>
      h name (mem_foldedNames.mpr ⟨tree, self_mem_visited tree, hfold, hname⟩)
  rw [simplify.eq_def, simplify.eq_def functions, if_pos hfold, if_pos hfold, hvalue]

/-- A pass runs the functions of the folded calls only. -/
theorem simplify_congr {tree : Tree}
    (h : ∀ name ∈ tree.foldedNames, other.find? name = functions.find? name) :
    tree.simplify other = tree.simplify functions := by
  induction tree with
  | integer _ | decimal _ | var _ => rfl
  | binary op left right ihl ihr =>
    cases hfold : (binary op left right).isFoldable with
    | true => exact simplify_congr_of_isFoldable hfold h
    | false =>
      cases hdescend : descendsInto op with
      | true =>
        have hvisited : (binary op left right).visited =
            binary op left right :: (left.visited ++ right.visited) := by
          rw [visited, if_pos hdescend]
        have hleft : left.visited ⊆ (binary op left right).visited := by simp [hvisited]
        have hright : right.visited ⊆ (binary op left right).visited := by simp [hvisited]
        have hnot := Bool.eq_false_iff.mp hfold
        rw [simplify, simplify, if_neg hnot, if_neg hnot,
          ihl fun name hname => h name (foldedNames_subset hleft hname),
          ihr fun name hname => h name (foldedNames_subset hright hname)]
      | false =>
        have hkept : (binary op left right).isKept = true := by simp [isKept, hdescend]
        rw [simplify_of_kept other hfold hkept, simplify_of_kept functions hfold hkept]
  | negate argument _ =>
    cases hfold : (negate argument).isFoldable with
    | true => exact simplify_congr_of_isFoldable hfold h
    | false => rw [simplify_of_kept other hfold rfl, simplify_of_kept functions hfold rfl]
  | call name idempotent arguments ih =>
    cases hfold : (call name idempotent arguments).isFoldable with
    | true => exact simplify_congr_of_isFoldable hfold h
    | false =>
      have hbelow : ∀ argument ∈ arguments,
          argument.visited ⊆ (call name idempotent arguments).visited := by
        intro argument hmem node hnode
        rw [visited, allVisited_eq]
        exact List.mem_cons_of_mem _ (List.mem_flatMap.mpr ⟨argument, hmem, hnode⟩)
      have harguments : simplifyAll other arguments = simplifyAll functions arguments :=
        simplifyAll_congr fun argument hmem => ih argument hmem fun called hcalled =>
          h called (foldedNames_subset (hbelow argument hmem) hcalled)
      have hnot := Bool.eq_false_iff.mp hfold
      rw [simplify, simplify, if_neg hnot, if_neg hnot, harguments]

end Tree

/-! ## Programs -/

namespace Program

variable {functions other : Functions}

theorem call_congr (name : String) {entry entry' : Entry Function} (h : entry.SameKind entry')
    (arguments : List Program) : call name entry' arguments = call name entry arguments := by
  rw [call, call, h.isOverwritable]
  split
  · rfl
  · rename_i hlocked
    rw [h.locked (Bool.not_eq_true _ ▸ hlocked)]

theorem ofTrees_congr {trees : List Tree}
    (htrees : ∀ tree ∈ trees, ofTree other tree = ofTree functions tree) :
    ofTrees other trees = ofTrees functions trees := by
  induction trees with
  | nil => rfl
  | cons tree trees ih =>
    rw [List.forall_mem_cons] at htrees
    rw [ofTrees, ofTrees, htrees.1, ih htrees.2]

/-- A program holds the locked functions only. -/
theorem ofTree_congr (h : SameKinds functions other) (tree : Tree) :
    ofTree other tree = ofTree functions tree := by
  induction tree with
  | integer _ | decimal _ | var _ => rfl
  | binary op left right ihl ihr => rw [ofTree, ofTree, ihl, ihr]
  | negate argument ih => rw [ofTree, ofTree, ih]
  | call name idempotent arguments ih =>
    have hrel := h name
    rw [ofTree, ofTree, ofTrees_congr ih]
    generalize functions.find? name = entry, other.find? name = entry' at hrel ⊢
    cases hrel with
    | none => rfl
    | some hsame => simp only [call_congr name hsame]

end Program

theorem Executable.ofTree_congr {functions other : Functions} (h : SameKinds functions other)
    (mode : ExecutionMode) (tree : Tree) :
    Executable.ofTree mode other tree = Executable.ofTree mode functions tree := by
  cases mode with
  | interpreted => rfl
  | compiled => rw [Executable.ofTree, Executable.ofTree, Program.ofTree_congr h]

end FormulaEngine
