import FormulaEngine.Proofs.Folding.Pass
import FormulaEngine.Proofs.Program.Agreement

/-!
# The folding pass keeps what a formula means

* `exists_simplify` and `valueUnder_simplify`: if a tree has a value under
  some lookup, the pass succeeds on it and the new tree has the same value.
* `valueUnder_of_not_collapses` and `unknownFunction?_of_not_collapses`: if
  no product collapses, the new tree has the same result under every lookup,
  errors included.  A collapse can lose the error of the dropped factor.
* `execute_simplify` puts both together for the two modes of execution.
-/

namespace FormulaEngine

namespace Tree

/-! ## Values -/

/-- A foldable tree has one result under every lookup, the one that the pass
computes. -/
theorem valueUnder_of_foldable {functions : Functions} (lookup : Lookup) {tree : Tree}
    (h : tree.isFoldable = true) :
    tree.valueUnder functions lookup = tree.evaluate functions .empty := by
  obtain ⟨_, hclosed, _⟩ := isFoldable_eq_true_iff.mp h
  rw [evaluate_eq_valueUnder]
  exact valueUnder_of_closed functions hclosed _ _

/-- A foldable tree with a value becomes that value. -/
theorem simplify_of_foldable {functions : Functions} {lookup : Lookup} {tree : Tree}
    {value : Decimal} (hfold : tree.isFoldable = true)
    (hvalue : tree.valueUnder functions lookup = .ok value) :
    simplify functions tree = .ok (.decimal value) := by
  rw [valueUnder_of_foldable lookup hfold] at hvalue
  exact (simplify_foldable_eq_ok_iff hfold).mpr ⟨value, hvalue, rfl⟩

/-- The pass succeeds on every tree that has a value. -/
theorem exists_simplify {functions : Functions} {lookup : Lookup} {tree : Tree} {value : Decimal}
    (h : tree.valueUnder functions lookup = .ok value) :
    ∃ simplified, simplify functions tree = .ok simplified := by
  induction tree generalizing value with
  | integer _ | decimal _ | var _ => exact ⟨_, simplify_of_kept functions rfl rfl⟩
  | binary op left right ihl ihr =>
    cases hfold : (binary op left right).isFoldable with
    | true => exact ⟨_, simplify_of_foldable hfold h⟩
    | false =>
      cases hdescend : descendsInto op with
      | false => exact ⟨_, simplify_of_kept functions hfold (by simp [isKept, hdescend])⟩
      | true =>
        obtain ⟨a, b, ha, hb, _⟩ := valueUnder_binary_eq_ok_iff.mp h
        obtain ⟨left', hleft⟩ := ihl ha
        obtain ⟨right', hright⟩ := ihr hb
        exact ⟨_, (simplify_binary_eq_ok_iff hfold hdescend).mpr
          ⟨left', right', hleft, hright, rfl⟩⟩
  | negate argument ih =>
    cases hfold : (negate argument).isFoldable with
    | true => exact ⟨_, simplify_of_foldable hfold h⟩
    | false => exact ⟨_, simplify_of_kept functions hfold rfl⟩
  | call name idempotent arguments ih =>
    cases hfold : (call name idempotent arguments).isFoldable with
    | true => exact ⟨_, simplify_of_foldable hfold h⟩
    | false =>
      obtain ⟨entry, values, _, hvalues, _⟩ := valueUnder_call_eq_ok_iff.mp h
      have hsome : ∀ argument ∈ arguments,
          ∃ argument', simplify functions argument = .ok argument' := by
        intro argument hmem
        obtain ⟨value, hvalue⟩ := exists_value_of_mem hvalues hmem
        exact ih argument hmem hvalue
      obtain ⟨arguments', harguments⟩ := exists_forall₂ hsome
      exact ⟨_, (simplify_call_eq_ok_iff hfold).mpr ⟨arguments', harguments, rfl⟩⟩

/-- The value of a zero literal. -/
theorem isZero_of_isZeroDecimal {functions : Functions} {lookup : Lookup} {tree : Tree}
    {value : Decimal} (hzero : tree.isZeroDecimal = true)
    (hvalue : tree.valueUnder functions lookup = .ok value) : value.isZero = true := by
  cases tree with
  | decimal d =>
    cases hvalue
    exact hzero
  | integer _ | var _ | binary _ _ _ | negate _ | call _ _ _ => cases hzero

/-- A product with a zero factor is zero. -/
theorem multiply_of_isZero {a b : Decimal} (h : a.isZero = true ∨ b.isZero = true) :
    BinaryOp.multiply.apply a b = .ok .zero := by
  have hzero : (a.isZero || b.isZero) = true := by simpa using h
  rw [BinaryOp.apply, Decimal.multiply?, if_pos hzero]
  rfl

/-- The pass keeps values. -/
theorem valueUnder_simplify {functions : Functions} {lookup : Lookup} {tree simplified : Tree}
    (h : simplify functions tree = .ok simplified) :
    ∀ value, tree.valueUnder functions lookup = .ok value →
      simplified.valueUnder functions lookup = .ok value := by
  refine simplify_induction (motive := fun tree simplified =>
    ∀ value, tree.valueUnder functions lookup = .ok value →
      simplified.valueUnder functions lookup = .ok value) ?_ ?_ ?_ ?_ ?_ h
  · intro tree folded hfold hfolded value hvalue
    rw [valueUnder_of_foldable lookup hfold, hfolded] at hvalue
    exact hvalue
  · intro tree _ _ value hvalue
    exact hvalue
  · -- The whole tree has a value, so the factor that is dropped had one too.
    intro left right left' right' _ _ _ hzero ihl ihr value hvalue
    obtain ⟨a, b, ha, hb, happly⟩ := valueUnder_binary_eq_ok_iff.mp hvalue
    have hfactor : a.isZero = true ∨ b.isZero = true := by
      rcases (Bool.or_eq_true _ _).mp hzero with hleft | hright
      · exact Or.inl (isZero_of_isZeroDecimal hleft (ihl a ha))
      · exact Or.inr (isZero_of_isZeroDecimal hright (ihr b hb))
    rw [multiply_of_isZero hfactor] at happly
    exact happly
  · intro op left right left' right' _ _ _ _ _ ihl ihr value hvalue
    obtain ⟨a, b, ha, hb, happly⟩ := valueUnder_binary_eq_ok_iff.mp hvalue
    exact valueUnder_binary_eq_ok_iff.mpr ⟨a, b, ihl a ha, ihr b hb, happly⟩
  · intro name idempotent arguments arguments' _ _ ih value hvalue
    obtain ⟨entry, values, hentry, hvalues, hrun⟩ := valueUnder_call_eq_ok_iff.mp hvalue
    exact valueUnder_call_eq_ok_iff.mpr
      ⟨entry, values, hentry, valuesUnder_of_forall₂ ih values hvalues, hrun⟩

/-! ## Results without a collapse -/

/-- Without a collapse the pass keeps every result, errors included. -/
theorem valueUnder_of_not_collapses {functions : Functions} {lookup : Lookup}
    {tree simplified : Tree} (h : simplify functions tree = .ok simplified) :
    ¬Collapses functions tree →
      simplified.valueUnder functions lookup = tree.valueUnder functions lookup := by
  refine simplify_induction (motive := fun tree simplified => ¬Collapses functions tree →
    simplified.valueUnder functions lookup = tree.valueUnder functions lookup) ?_ ?_ ?_ ?_ ?_ h
  · intro tree value hfold hvalue _
    rw [valueUnder_of_foldable lookup hfold, hvalue]
    rfl
  · intro tree _ _ _
    rfl
  · intro left right left' right' hfold hleft hright hzero _ _ hcollapse
    exact absurd (.product hfold hleft hright hzero) hcollapse
  · intro op left right left' right' hfold hdescend _ _ _ ihl ihr hcollapse
    rw [valueUnder, valueUnder, ihl fun h => hcollapse (.left hfold hdescend h),
      ihr fun h => hcollapse (.right hfold hdescend h)]
  · intro name idempotent arguments arguments' hfold _ ih hcollapse
    have harguments := forall₂_of_not_collapses hfold hcollapse ih
    rw [valueUnder, valueUnder, valuesUnder_congr (harguments.flip.imp fun _ _ h => h)]

theorem findSome?_unknownFunction?_congr {functions : Functions} {trees trees' : List Tree}
    (h : List.Forall₂ (fun tree tree' =>
      tree'.unknownFunction? functions = tree.unknownFunction? functions) trees trees') :
    trees'.findSome? (unknownFunction? functions) =
      trees.findSome? (unknownFunction? functions) := by
  induction h with
  | nil => rfl
  | cons hhead _ ih => rw [List.findSome?_cons, List.findSome?_cons, hhead, ih]

/-- Without a collapse the first unknown function stays the same. -/
theorem unknownFunction?_of_not_collapses {functions : Functions} {tree simplified : Tree}
    (h : simplify functions tree = .ok simplified) :
    ¬Collapses functions tree →
      simplified.unknownFunction? functions = tree.unknownFunction? functions := by
  refine simplify_induction (motive := fun tree simplified => ¬Collapses functions tree →
    simplified.unknownFunction? functions = tree.unknownFunction? functions) ?_ ?_ ?_ ?_ ?_ h
  · intro tree value _ hvalue _
    rw [evaluate_eq_valueUnder] at hvalue
    rw [unknownFunction?_of_value hvalue]
    rfl
  · intro tree _ _ _
    rfl
  · intro left right left' right' hfold hleft hright hzero _ _ hcollapse
    exact absurd (.product hfold hleft hright hzero) hcollapse
  · intro op left right left' right' hfold hdescend _ _ _ ihl ihr hcollapse
    rw [unknownFunction?_binary, unknownFunction?_binary,
      ihl fun h => hcollapse (.left hfold hdescend h),
      ihr fun h => hcollapse (.right hfold hdescend h)]
  · intro name idempotent arguments arguments' hfold _ ih hcollapse
    have harguments := forall₂_of_not_collapses hfold hcollapse ih
    rw [unknownFunction?_call, unknownFunction?_call, findSome?_unknownFunction?_congr harguments]

end Tree

/-! ## Both modes of execution -/

/-- A compiled formula finds every name that an interpreted one finds. -/
theorem lookUp_of_lookup {mode : ExecutionMode} {context : Context} {name : String}
    {value : Decimal} (h : mode.lookup context name = .ok value) :
    Program.lookUp context name = .ok value := by
  cases mode with
  | compiled => exact h
  | interpreted =>
    rw [ExecutionMode.lookup, Variables.get] at h
    rw [Program.lookUp]
    cases hfound : context.vars.find? name with
    | some found =>
      rw [hfound] at h
      exact h
    | none =>
      rw [hfound] at h
      cases h

/-- The pass preserves meaning.  A tree with a value keeps it in its mode, and
has it in a compiled formula as well.  A tree in which no product collapses
keeps its result for all variables, errors included. -/
theorem execute_simplify (functions : Functions) (constants : Constants) (caseSensitive : Bool)
    (tree : Tree) :
    (∀ (mode : ExecutionMode) (vars : Variables) (value : Decimal),
      mode.execute caseSensitive tree functions constants vars = .ok value →
      ∃ simplified, tree.simplify functions = .ok simplified ∧
        mode.execute caseSensitive simplified functions constants vars = .ok value ∧
        ExecutionMode.compiled.execute caseSensitive simplified functions constants vars
          = .ok value) ∧
    (∀ simplified, tree.simplify functions = .ok simplified → ¬tree.Collapses functions →
      ∀ (mode : ExecutionMode) (vars : Variables),
        mode.execute caseSensitive simplified functions constants vars =
          mode.execute caseSensitive tree functions constants vars) := by
  constructor
  · intro mode vars value hvalue
    rw [execute_eq_ok_iff] at hvalue
    obtain ⟨simplified, hsimplified⟩ := Tree.exists_simplify hvalue
    have hkept := Tree.valueUnder_simplify hsimplified value hvalue
    refine ⟨simplified, hsimplified, execute_eq_ok_iff.mpr hkept, execute_eq_ok_iff.mpr ?_⟩
    exact Tree.valueUnder_mono functions (fun _ _ => lookUp_of_lookup) value hkept
  · intro simplified hsimplified hcollapse mode vars
    exact execute_congr mode
      (fun _ => Tree.valueUnder_of_not_collapses hsimplified hcollapse)
      (Tree.unknownFunction?_of_not_collapses hsimplified hcollapse)

/-- The product of `x` and `1 - 1`, which collapses. -/
def Tree.vanishingProduct : Tree :=
  .binary .multiply (.var "x") (.binary .subtract (.integer 1) (.integer 1))

/-- The sum of `y` and `2 * 3`, in which nothing collapses. -/
def Tree.sumWithProduct : Tree :=
  .binary .add (.var "y") (.binary .multiply (.integer 2) (.integer 3))

theorem sumWithProduct_not_collapses : ¬Tree.sumWithProduct.Collapses (.empty false) := by
  intro h
  cases h with
  | left _ _ h => cases h
  | right _ _ h =>
    cases h with
    | product hfold => cases hfold
    | left hfold => cases hfold
    | right hfold => cases hfold

/-- The first tree has a value for `x`, and the second an error without `y`. -/
theorem execute_simplify_samples :
    (∃ simplified, Tree.vanishingProduct.simplify (.empty false) = .ok simplified ∧
      ExecutionMode.interpreted.execute false simplified (.empty false) (.empty false)
        ⟨[("X", .ofInt64 2)]⟩ = .ok .zero ∧
      ExecutionMode.compiled.execute false simplified (.empty false) (.empty false)
        ⟨[("X", .ofInt64 2)]⟩ = .ok .zero) ∧
    (∃ simplified, Tree.sumWithProduct.simplify (.empty false) = .ok simplified ∧
      ExecutionMode.compiled.execute false simplified (.empty false) (.empty false)
        ⟨[("x", .ofInt64 2)]⟩ = .error (.variableNotDefined "y")) := by
  constructor
  · exact (execute_simplify (.empty false) (.empty false) false .vanishingProduct).1
      .interpreted ⟨[("X", .ofInt64 2)]⟩ .zero rfl
  · obtain ⟨simplified, hsimplified⟩ : ∃ simplified,
        Tree.sumWithProduct.simplify (.empty false) = .ok simplified := ⟨_, rfl⟩
    refine ⟨simplified, hsimplified, ?_⟩
    rw [(execute_simplify (.empty false) (.empty false) false .sumWithProduct).2 simplified
      hsimplified sumWithProduct_not_collapses]
    rfl

end FormulaEngine
