import FormulaEngine.Proofs.Folding.Pass
import FormulaEngine.Proofs.Tree.Equality

/-!
# What a second pass does

The test for folding is made before the operands are rewritten.  A product
that collapses takes its variables with it, so an operator above it can
become foldable after the test has passed it by: `x * (1 - 1) + 1` becomes
`0 + 1`, and only a second pass gives `1`.

`Tree.visited` lists the nodes at which a pass makes the test.

* `isFolded_of_equals`: a pass that changes nothing folds none of them, and
  leaves none to fold.
* `simplify_eq_self`: a pass that finds nothing to fold in the result of a
  pass changes nothing.
* `isFolded_of_not_collapses`: after a pass without a collapse there is
  nothing left to fold.

`simplify_again` puts these together.
-/

namespace FormulaEngine

namespace Tree

/-! ## Visited nodes -/

mutual

/-- The nodes of a tree at which a pass tests whether to fold. -/
def visited : Tree → List Tree
  | .integer value => [.integer value]
  | .decimal value => [.decimal value]
  | .var name => [.var name]
  | .binary op left right =>
    .binary op left right :: if descendsInto op then left.visited ++ right.visited else []
  | .negate argument => [.negate argument]
  | .call name idempotent arguments => .call name idempotent arguments :: allVisited arguments

/-- The visited nodes of the trees of a list. -/
def allVisited : List Tree → List Tree
  | [] => []
  | tree :: trees => tree.visited ++ allVisited trees

end

theorem allVisited_eq (trees : List Tree) : allVisited trees = trees.flatMap visited := by
  induction trees with
  | nil => rfl
  | cons tree trees ih => rw [allVisited, ih, List.flatMap_cons]

theorem visited_of_kept {tree : Tree} (h : tree.isKept = true) : tree.visited = [tree] := by
  cases tree with
  | integer _ | decimal _ | var _ | negate _ => rfl
  | binary op left right =>
    have hdescend : descendsInto op = false := by simpa [isKept] using h
    simp [visited, hdescend]
  | call name idempotent arguments => simp [isKept] at h

theorem visited_subset_subtrees (tree : Tree) : tree.visited ⊆ tree.subtrees := by
  induction tree with
  | integer _ | decimal _ | var _ => exact List.Subset.refl _
  | binary op left right ihl ihr =>
    rw [visited, subtrees]
    split
    · exact List.cons_subset_cons _ (List.append_subset.mpr
        ⟨List.subset_append_of_subset_left _ ihl, List.subset_append_of_subset_right _ ihr⟩)
    · exact List.cons_subset_cons _ (List.nil_subset _)
  | negate argument _ => exact List.cons_subset_cons _ (List.nil_subset _)
  | call name idempotent arguments ih =>
    rw [visited, subtrees, allVisited_eq, allSubtrees_eq]
    refine List.cons_subset_cons _ fun node hnode => ?_
    obtain ⟨argument, hmem, hvisited⟩ := List.mem_flatMap.mp hnode
    exact List.mem_flatMap.mpr ⟨argument, hmem, ih argument hmem hvisited⟩

/-- Nothing is left to fold at the nodes that a pass visits. -/
def IsFolded (tree : Tree) : Prop := ∀ node ∈ tree.visited, node.isFoldable = false

instance (tree : Tree) : Decidable tree.IsFolded :=
  inferInstanceAs (Decidable (∀ node ∈ tree.visited, node.isFoldable = false))

theorem isFolded_of_kept {tree : Tree} (h : tree.isKept = true) :
    tree.IsFolded ↔ tree.isFoldable = false := by
  rw [IsFolded, visited_of_kept h, List.forall_mem_singleton]

theorem isFolded_binary {op : BinaryOp} {left right : Tree} (hdescend : descendsInto op = true) :
    (binary op left right).IsFolded ↔
      (binary op left right).isFoldable = false ∧ left.IsFolded ∧ right.IsFolded := by
  rw [IsFolded, visited, if_pos hdescend, List.forall_mem_cons, List.forall_mem_append]
  rfl

theorem isFolded_call {name : String} {idempotent : Bool} {arguments : List Tree} :
    (call name idempotent arguments).IsFolded ↔
      (call name idempotent arguments).isFoldable = false ∧
        ∀ argument ∈ arguments, argument.IsFolded := by
  rw [IsFolded, visited, List.forall_mem_cons, allVisited_eq]
  simp only [List.mem_flatMap, IsFolded]
  constructor
  · rintro ⟨hroot, harguments⟩
    exact ⟨hroot, fun argument hmem node hnode => harguments node ⟨argument, hmem, hnode⟩⟩
  · rintro ⟨hroot, harguments⟩
    exact ⟨hroot, fun node ⟨argument, hmem, hnode⟩ => harguments argument hmem node hnode⟩

/-! ## Passes that change nothing -/

theorem isFoldable_of_attributes {tree tree' : Tree} (hliteral : tree.isLiteral = false)
    (hfold : tree.isFoldable = false)
    (h : tree'.dependsOnVariables = tree.dependsOnVariables ∧
      tree'.isIdempotent = tree.isIdempotent) : tree'.isFoldable = false := by
  rw [Bool.eq_false_iff] at hfold ⊢
  intro hfold'
  obtain ⟨_, hclosed, hidempotent⟩ := isFoldable_eq_true_iff.mp hfold'
  rw [h.1] at hclosed
  rw [h.2] at hidempotent
  exact hfold (isFoldable_eq_true_iff.mpr ⟨hliteral, hclosed, hidempotent⟩)

/-- A pass that gives an equal tree back had nothing to fold, and leaves nothing to
fold. -/
theorem isFolded_of_equals {functions : Functions} {tree again : Tree}
    (h : simplify functions tree = .ok again) :
    again.equals tree = true → tree.IsFolded ∧ again.IsFolded := by
  refine simplify_induction (motive := fun tree again =>
    again.equals tree = true → tree.IsFolded ∧ again.IsFolded) ?_ ?_ ?_ ?_ ?_ h
  · intro tree value hfold _ hequals
    obtain ⟨hliteral, _, _⟩ := isFoldable_eq_true_iff.mp hfold
    cases tree with
    | integer _ | decimal _ => cases hliteral
    | var _ | binary _ _ _ | negate _ | call _ _ _ => simp [equals] at hequals
  · intro tree hfold hkept _
    have hfolded := (isFolded_of_kept hkept).mpr hfold
    exact ⟨hfolded, hfolded⟩
  · intro left right left' right' _ _ _ _ _ _ hequals
    simp [equals] at hequals
  · intro op left right left' right' hfold hdescend _ _ _ ihl ihr hequals
    have hattributes := (attributes_of_equals hequals).1
    have hfold' : (binary op left' right').isFoldable = false :=
      isFoldable_of_attributes rfl hfold (Prod.mk.inj (Prod.mk.inj hattributes).2)
    rw [equals, Bool.and_eq_true, Bool.and_eq_true] at hequals
    obtain ⟨hleft, hleft'⟩ := ihl hequals.1.2
    obtain ⟨hright, hright'⟩ := ihr hequals.2
    exact ⟨(isFolded_binary hdescend).mpr ⟨hfold, hleft, hright⟩,
      (isFolded_binary hdescend).mpr ⟨hfold', hleft', hright'⟩⟩
  · intro name idempotent arguments arguments' hfold _ ih hequals
    have hattributes := (attributes_of_equals hequals).1
    have hfold' : (call name (idempotent && allIdempotent arguments) arguments').isFoldable =
        false :=
      isFoldable_of_attributes rfl hfold (Prod.mk.inj (Prod.mk.inj hattributes).2)
    rw [equals, Bool.and_eq_true, Bool.and_eq_true] at hequals
    have harguments := (allEqual_iff.mp hequals.1.2).flip
    have hfolded : List.Forall₂ (fun argument argument' =>
        argument.IsFolded ∧ argument'.IsFolded) arguments arguments' :=
      List.Forall₂.mp (fun _ _ himp heq => himp heq) ih harguments
    exact ⟨isFolded_call.mpr ⟨hfold, forall_mem_of_forall₂ (hfolded.imp fun _ _ h => h.1)⟩,
      isFolded_call.mpr ⟨hfold', forall_mem_of_forall₂ (hfolded.imp fun _ _ h => h.2).flip⟩⟩

/-- A pass changes nothing in the result of a pass in which nothing is left
to fold. -/
theorem simplify_eq_self {functions : Functions} {tree simplified : Tree}
    (h : simplify functions tree = .ok simplified) :
    simplified.IsFolded → simplify functions simplified = .ok simplified := by
  refine simplify_induction (motive := fun _ simplified =>
    simplified.IsFolded → simplify functions simplified = .ok simplified) ?_ ?_ ?_ ?_ ?_ h
  · intro _ value _ _ _
    exact simplify_of_kept functions rfl rfl
  · intro tree hfold hkept _
    exact simplify_of_kept functions hfold hkept
  · intro _ _ _ _ _ _ _ _ _ _ _
    exact simplify_of_kept functions rfl rfl
  · intro op left right left' right' _ hdescend _ _ hzero ihl ihr hfolded
    obtain ⟨hfold, hleft, hright⟩ := (isFolded_binary hdescend).mp hfolded
    refine (simplify_binary_eq_ok_iff hfold hdescend).mpr
      ⟨left', right', ihl hleft, ihr hright, ?_⟩
    rw [rebuild_of_not_zero hzero]
  · intro name idempotent arguments arguments' _ hsimplified ih hfolded
    obtain ⟨hfold, harguments⟩ := isFolded_call.mp hfolded
    refine (simplify_call_eq_ok_iff hfold).mpr ⟨arguments', ?_, ?_⟩
    · exact List.forall₂_same.mpr
        (forall_mem_of_forall₂ (forall₂_of_forall_mem harguments ih.flip))
    · rw [and_allIdempotent_of_simplified idempotent hsimplified]

/-! ## Passes without a collapse -/

/-- After a pass without a collapse nothing is left to fold. -/
theorem isFolded_of_not_collapses {functions : Functions} {tree simplified : Tree}
    (h : simplify functions tree = .ok simplified) :
    ¬Collapses functions tree → simplified.IsFolded := by
  refine simplify_induction (motive := fun tree simplified =>
    ¬Collapses functions tree → simplified.IsFolded) ?_ ?_ ?_ ?_ ?_ h
  · intro _ value _ _ _
    exact (isFolded_of_kept rfl).mpr rfl
  · intro tree hfold hkept _
    exact (isFolded_of_kept hkept).mpr hfold
  · intro left right left' right' hfold hleft hright hzero _ _ hcollapse
    exact absurd (.product hfold hleft hright hzero) hcollapse
  · intro op left right left' right' hfold hdescend hleft hright hzero ihl ihr hcollapse
    have hwhole : simplify functions (.binary op left right) = .ok (.binary op left' right') :=
      (simplify_binary_eq_ok_iff hfold hdescend).mpr
        ⟨left', right', hleft, hright, (rebuild_of_not_zero hzero).symm⟩
    refine (isFolded_binary hdescend).mpr ⟨?_, ?_, ?_⟩
    · exact isFoldable_of_attributes rfl hfold (attributes_of_not_collapses hwhole hcollapse)
    · exact ihl fun h => hcollapse (.left hfold hdescend h)
    · exact ihr fun h => hcollapse (.right hfold hdescend h)
  · intro name idempotent arguments arguments' hfold hsimplified ih hcollapse
    have hwhole := (simplify_call_eq_ok_iff hfold).mpr ⟨arguments', hsimplified, rfl⟩
    refine isFolded_call.mpr ⟨?_, ?_⟩
    · exact isFoldable_of_attributes rfl hfold (attributes_of_not_collapses hwhole hcollapse)
    · exact forall_mem_of_forall₂ (forall₂_of_not_collapses hfold hcollapse ih).flip

/-! ## The second pass -/

/-- A second pass gives an equal tree exactly if the first one left nothing
to fold at the nodes that a pass visits.  It does so whenever no product
collapsed in the first one. -/
theorem simplify_again {functions : Functions} {tree simplified : Tree}
    (h : simplify functions tree = .ok simplified) :
    ((∃ again, simplify functions simplified = .ok again ∧ again.equals simplified = true) ↔
      simplified.IsFolded) ∧
    (¬Collapses functions tree →
      ∃ again, simplify functions simplified = .ok again ∧ again.equals simplified = true) := by
  have hiff : (∃ again, simplify functions simplified = .ok again ∧
      again.equals simplified = true) ↔ simplified.IsFolded := by
    constructor
    · rintro ⟨again, hagain, hequals⟩
      exact (isFolded_of_equals hagain hequals).1
    · intro hfolded
      exact ⟨simplified, simplify_eq_self h hfolded, equals_refl simplified⟩
  exact ⟨hiff, fun hcollapse => hiff.mpr (isFolded_of_not_collapses h hcollapse)⟩

/-- The product of `x` and `1 - 1`, plus one. -/
def vanishingProductPlusOne : Tree :=
  .binary .add (.binary .multiply (.var "x") (.binary .subtract (.integer 1) (.integer 1)))
    (.integer 1)

/-- The first pass leaves `0 + 1`, which a second pass folds. -/
theorem simplify_again_of_vanishing_product :
    ∃ simplified, simplify (.empty false) vanishingProductPlusOne = .ok simplified ∧
      ¬∃ again, simplify (.empty false) simplified = .ok again ∧
        again.equals simplified = true := by
  refine ⟨.binary .add (.decimal .zero) (.integer 1), rfl, ?_⟩
  rintro ⟨again, hagain, hequals⟩
  have hfolded : simplify (.empty false) (.binary .add (.decimal .zero) (.integer 1))
      = .ok (.decimal .one) := rfl
  rw [hfolded] at hagain
  cases hagain
  cases hequals

/-- The sum of `x` and `1 + 1`. -/
def sumOfSum : Tree := .binary .add (.var "x") (.binary .add (.integer 1) (.integer 1))

theorem simplify_again_of_sum :
    ∃ simplified, simplify (.empty false) sumOfSum = .ok simplified ∧
      ∃ again, simplify (.empty false) simplified = .ok again ∧
        again.equals simplified = true := by
  have hsimplified : simplify (.empty false) sumOfSum
      = .ok (.binary .add (.var "x") (.decimal (.ofInt64 2))) := rfl
  exact ⟨_, hsimplified, (simplify_again hsimplified).1.mpr (by decide)⟩

end Tree

end FormulaEngine
