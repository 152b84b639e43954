import FormulaEngine.Proofs.Folding.FixedPoint

/-!
# Repeated passes

One pass can leave something to fold for the next one.  The nodes that are no
literals bound how often this happens: a pass never leaves more of them
(`shrinks_of_simplify`), and if it leaves as many, it has changed nothing.  The
size of the tree would not do, because a call without arguments and its value
are both one node.

After a pass that changes nothing no pass changes anything
(`isSettled_of_equals`).  So repeated passes come to an end, with an error or
with a settled tree, and `passes_converge` says when.
-/

namespace FormulaEngine.Tree

/-! ## Nodes that are no literals -/

/-- How many nodes of some trees are no literals. -/
def countNonLiterals (nodes : List Tree) : Nat := nodes.countP fun node => !node.isLiteral

/-- How many nodes of a tree are no literals. -/
def nonLiterals (tree : Tree) : Nat := countNonLiterals tree.subtrees

theorem nonLiterals_decimal (value : Decimal) : (decimal value).nonLiterals = 0 := rfl

theorem nonLiterals_binary (op : BinaryOp) (left right : Tree) :
    (binary op left right).nonLiterals = left.nonLiterals + right.nonLiterals + 1 := by
  rw [nonLiterals, subtrees, countNonLiterals, List.countP_cons_of_pos rfl, List.countP_append]
  rfl

theorem nonLiterals_call (name : String) (idempotent : Bool) (arguments : List Tree) :
    (call name idempotent arguments).nonLiterals =
      countNonLiterals (allSubtrees arguments) + 1 := by
  rw [nonLiterals, subtrees, countNonLiterals, List.countP_cons_of_pos rfl]
  rfl

theorem countNonLiterals_cons (tree : Tree) (trees : List Tree) :
    countNonLiterals (allSubtrees (tree :: trees)) =
      tree.nonLiterals + countNonLiterals (allSubtrees trees) := by
  rw [allSubtrees, countNonLiterals, List.countP_append]
  rfl

theorem nonLiterals_pos {tree : Tree} (h : tree.isLiteral = false) : 0 < tree.nonLiterals := by
  rw [nonLiterals, countNonLiterals, List.countP_pos_iff]
  exact ⟨tree, self_mem_subtrees tree, by rw [h]; rfl⟩

/-! ## One pass -/

/-- There are no more such nodes than before, and as many only if nothing has
changed. -/
structure Shrinks (tree simplified : Tree) : Prop where
  le : simplified.nonLiterals ≤ tree.nonLiterals
  equals : simplified.nonLiterals = tree.nonLiterals → simplified.equals tree = true

theorem shrinks_to_decimal {tree : Tree} (h : tree.isLiteral = false) (value : Decimal) :
    Shrinks tree (.decimal value) := by
  have hpos := nonLiterals_pos h
  rw [← nonLiterals_decimal value] at hpos
  exact ⟨Nat.le_of_lt hpos, fun hcount => absurd hcount (Nat.ne_of_lt hpos)⟩

theorem Shrinks.binary {left right left' right' : Tree} (op : BinaryOp)
    (hleft : Shrinks left left') (hright : Shrinks right right') :
    Shrinks (.binary op left right) (.binary op left' right') := by
  obtain ⟨hle, hequals⟩ := hleft
  obtain ⟨hle', hequals'⟩ := hright
  constructor
  · rw [nonLiterals_binary, nonLiterals_binary]
    omega
  · intro hcount
    rw [nonLiterals_binary, nonLiterals_binary] at hcount
    simp [Tree.equals, hequals (by omega), hequals' (by omega)]

/-- The nodes of a list of trees, if each tree shrinks. -/
theorem countNonLiterals_of_shrinks {trees trees' : List Tree}
    (h : List.Forall₂ Shrinks trees trees') :
    countNonLiterals (allSubtrees trees') ≤ countNonLiterals (allSubtrees trees) ∧
      (countNonLiterals (allSubtrees trees') = countNonLiterals (allSubtrees trees) →
        allEqual trees' trees = true) := by
  induction h with
  | nil => exact ⟨Nat.le_refl _, fun _ => rfl⟩
  | cons hhead _ ih =>
    obtain ⟨hle, hequals⟩ := hhead
    obtain ⟨hle', hequals'⟩ := ih
    rw [countNonLiterals_cons, countNonLiterals_cons, allEqual, Bool.and_eq_true]
    exact ⟨Nat.add_le_add hle hle', fun hcount => ⟨hequals (by omega), hequals' (by omega)⟩⟩

variable {functions : Functions}

/-- What a pass does to the nodes that are no literals. -/
theorem shrinks_of_simplify {tree simplified : Tree}
    (h : simplify functions tree = .ok simplified) : Shrinks tree simplified := by
  refine simplify_induction (motive := Shrinks) ?_ ?_ ?_ ?_ ?_ h
  · intro tree value hfold _
    exact shrinks_to_decimal (isFoldable_eq_true_iff.mp hfold).1 value
  · intro tree _ _
    exact ⟨Nat.le_refl _, fun _ => equals_refl tree⟩
  · intro left right left' right' _ _ _ _ _ _
    exact shrinks_to_decimal rfl .zero
  · intro op left right left' right' _ _ _ _ _ hleft hright
    exact hleft.binary op hright
  · intro name idempotent arguments arguments' _ hsimplified harguments
    obtain ⟨hle, hequals⟩ := countNonLiterals_of_shrinks harguments
    constructor
    · rw [nonLiterals_call, nonLiterals_call]
      exact Nat.succ_le_succ hle
    · intro hcount
      rw [nonLiterals_call, nonLiterals_call] at hcount
      rw [Tree.equals, hequals (Nat.succ.inj hcount),
        and_allIdempotent_of_simplified idempotent hsimplified, beq_self_eq_true,
        beq_self_eq_true]
      rfl

/-! ## Several passes -/

/-- The tree after a number of passes, or the first error of one. -/
def simplifyTimes (functions : Functions) : Nat → Tree → Except EvaluationError Tree
  | 0, tree => .ok tree
  | passes + 1, tree =>
    match simplify functions tree with
    | .error e => .error e
    | .ok simplified => simplifyTimes functions passes simplified

/-- No number of passes changes the tree. -/
def IsSettled (functions : Functions) (tree : Tree) : Prop :=
  ∀ passes, ∃ again, simplifyTimes functions passes tree = .ok again ∧ again.equals tree = true

theorem simplifyTimes_eq_self {tree : Tree} (h : simplify functions tree = .ok tree)
    (passes : Nat) : simplifyTimes functions passes tree = .ok tree := by
  induction passes with
  | zero => rfl
  | succ passes ih =>
    rw [simplifyTimes, h]
    exact ih

/-- If one pass changes nothing, no later one does. -/
theorem isSettled_of_equals {tree again : Tree} (h : simplify functions tree = .ok again)
    (hequals : again.equals tree = true) : tree.IsSettled functions := by
  intro passes
  cases passes with
  | zero => exact ⟨tree, rfl, equals_refl tree⟩
  | succ passes =>
    have hfixed := simplify_eq_self h (isFolded_of_equals h hequals).2
    refine ⟨again, ?_, hequals⟩
    rw [simplifyTimes, h]
    exact simplifyTimes_eq_self hfixed passes

/-- The passes end with an error or with a settled tree. -/
def EndsAfter (functions : Functions) (passes : Nat) (tree : Tree) : Prop :=
  (∃ e, simplifyTimes functions passes tree = .error e) ∨
    ∃ settled, simplifyTimes functions passes tree = .ok settled ∧ settled.IsSettled functions

theorem EndsAfter.succ {tree simplified : Tree} {passes : Nat}
    (h : simplify functions tree = .ok simplified) (hends : EndsAfter functions passes simplified) :
    EndsAfter functions (passes + 1) tree := by
  rw [EndsAfter, simplifyTimes, h]
  exact hends

theorem exists_endsAfter (functions : Functions) (tree : Tree) :
    ∃ passes ≤ tree.nonLiterals, EndsAfter functions passes tree := by
  induction hcount : tree.nonLiterals using Nat.strongRecOn generalizing tree with
  | _ count ih =>
    subst hcount
    cases h : simplify functions tree with
    | error e =>
      -- Literals do not fail, so there is a node for this pass.
      have hliteral : tree.isLiteral = false := by
        cases tree with
        | integer _ | decimal _ =>
          rw [simplify_of_kept functions rfl rfl] at h
          cases h
        | var _ | binary _ _ _ | negate _ | call _ _ _ => rfl
      refine ⟨1, nonLiterals_pos hliteral, .inl ⟨e, ?_⟩⟩
      rw [simplifyTimes, h]
    | ok simplified =>
      obtain ⟨hle, hequals⟩ := shrinks_of_simplify h
      rcases Nat.lt_or_eq_of_le hle with hlt | hsame
      · obtain ⟨passes, hpasses, hends⟩ := ih _ hlt simplified rfl
        exact ⟨passes + 1, Nat.lt_of_le_of_lt hpasses hlt, hends.succ h⟩
      · exact ⟨0, Nat.zero_le _, .inr ⟨tree, rfl, isSettled_of_equals h (hequals hsame)⟩⟩

/-- A pass gives an equal tree or one with fewer nodes that are no literals.
Repeated, it ends with an error or with a tree that no pass changes, after as
many passes at most as the tree has nodes that are no literals. -/
theorem passes_converge (functions : Functions) (tree : Tree) :
    (∀ simplified, simplify functions tree = .ok simplified →
      simplified.equals tree = true ∨ simplified.nonLiterals < tree.nonLiterals) ∧
    ∃ passes ≤ tree.nonLiterals, EndsAfter functions passes tree := by
  refine ⟨fun simplified h => ?_, exists_endsAfter functions tree⟩
  obtain ⟨hle, hequals⟩ := shrinks_of_simplify h
  exact (Nat.lt_or_eq_of_le hle).symm.imp_left hequals

/-- Three by `x * (1 - 1)`. -/
def quotientByVanishingProduct : Tree :=
  .binary .divide (.integer 3) (.binary .multiply (.var "x")
    (.binary .subtract (.integer 1) (.integer 1)))

/-- The first pass gives `3 / 0`, and the second one fails. -/
theorem passes_converge_of_quotient :
    (∃ simplified, simplify (.empty false) quotientByVanishingProduct = .ok simplified ∧
      (simplified.equals quotientByVanishingProduct = true ∨ simplified.nonLiterals < 4)) ∧
    (∃ passes ≤ 4, EndsAfter (.empty false) passes quotientByVanishingProduct) ∧
    simplifyTimes (.empty false) 2 quotientByVanishingProduct = .error .zeroDivision := by
  have hsimplify : simplify (.empty false) quotientByVanishingProduct =
      .ok (.binary .divide (.integer 3) (.decimal .zero)) := by
    rfl
  obtain ⟨hpass, hpasses⟩ := passes_converge (.empty false) quotientByVanishingProduct
  exact ⟨⟨_, hsimplify, hpass _ hsimplify⟩, hpasses, rfl⟩

end FormulaEngine.Tree
