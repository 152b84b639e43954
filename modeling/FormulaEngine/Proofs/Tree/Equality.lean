import FormulaEngine.Proofs.Tree.Subtrees

/-!
# Equal trees

`Tree.equals` compares trees by the values of their literals and by whether
their calls are idempotent.  So equal trees can differ in the forms of their
decimals, and in the functions of calls whose arguments are not idempotent.
`equals_induction` is the induction over two equal trees, and
`attributes_of_equals` says that they have the same attributes, at the root and
at all nodes.
-/

namespace FormulaEngine

theorem Decimal.equals_refl (a : Decimal) : a.equals a = true := decide_eq_true rfl

namespace Tree

theorem allEqual_iff {trees trees' : List Tree} :
    allEqual trees trees' = true ↔
      List.Forall₂ (fun tree tree' => tree.equals tree' = true) trees trees' := by
  induction trees generalizing trees' with
  | nil => cases trees' <;> simp [allEqual]
  | cons tree trees ih => cases trees' <;> simp [allEqual, ih]

theorem equals_refl (tree : Tree) : tree.equals tree = true := by
  induction tree with
  | integer value => simp [equals]
  | decimal value => exact Decimal.equals_refl value
  | var name => simp [equals]
  | binary op left right ihl ihr => simp [equals, ihl, ihr]
  | negate argument ih => exact ih
  | call name idempotent arguments ih =>
    have harguments := allEqual_iff.mpr (List.forall₂_same.mpr ih)
    simp [equals, harguments]

/-! ## Attributes of equal trees -/

/-- The three attributes of a tree. -/
def attributes (tree : Tree) : DataType × Bool × Bool :=
  (tree.dataType, tree.dependsOnVariables, tree.isIdempotent)

theorem map_eq_map_of_forall₂ {α β : Type} {f : α → β} {as bs : List α}
    (h : List.Forall₂ (fun a b => f a = f b) as bs) : as.map f = bs.map f := by
  rwa [← List.forall₂_eq_eq_eq, List.forall₂_map_left_iff, List.forall₂_map_right_iff]

theorem anyDependsOnVariables_eq_any_attributes (trees : List Tree) :
    anyDependsOnVariables trees = (trees.map attributes).any (·.2.1) := by
  rw [anyDependsOnVariables_eq, List.any_map]
  rfl

theorem allIdempotent_eq_all_attributes (trees : List Tree) :
    allIdempotent trees = (trees.map attributes).all (·.2.2) := by
  rw [allIdempotent_eq, List.all_map]
  rfl

/-- Induction over two equal trees. -/
theorem equals_induction {motive : Tree → Tree → Prop}
    (integer : ∀ value, motive (.integer value) (.integer value))
    (decimal : ∀ value value', value.equals value' = true →
      motive (.decimal value) (.decimal value'))
    (var : ∀ name, motive (.var name) (.var name))
    (binary : ∀ op left right left' right', motive left left' → motive right right' →
      motive (.binary op left right) (.binary op left' right'))
    (negate : ∀ argument argument', motive argument argument' →
      motive (.negate argument) (.negate argument'))
    (call : ∀ name idempotent idempotent' arguments arguments',
      List.Forall₂ motive arguments arguments' →
      (idempotent && allIdempotent arguments) = (idempotent' && allIdempotent arguments') →
      motive (.call name idempotent arguments) (.call name idempotent' arguments'))
    {a b : Tree} (h : a.equals b = true) : motive a b := by
  induction a generalizing b with
  | integer value =>
    cases b with
    | integer value' =>
      cases beq_iff_eq.mp h
      exact integer value
    | decimal _ | var _ | binary _ _ _ | negate _ | call _ _ _ => cases h
  | decimal value =>
    cases b with
    | decimal value' => exact decimal value value' h
    | integer _ | var _ | binary _ _ _ | negate _ | call _ _ _ => cases h
  | var name =>
    cases b with
    | var name' =>
      cases beq_iff_eq.mp h
      exact var name
    | integer _ | decimal _ | binary _ _ _ | negate _ | call _ _ _ => cases h
  | binary op left right ihl ihr =>
    cases b with
    | binary op' left' right' =>
      rw [equals, Bool.and_eq_true, Bool.and_eq_true, beq_iff_eq] at h
      obtain ⟨⟨rfl, hleft⟩, hright⟩ := h
      exact binary op left right left' right' (ihl hleft) (ihr hright)
    | integer _ | decimal _ | var _ | negate _ | call _ _ _ => cases h
  | negate argument ih =>
    cases b with
    | negate argument' => exact negate argument argument' (ih h)
    | integer _ | decimal _ | var _ | binary _ _ _ | call _ _ _ => cases h
  | call name idempotent arguments ih =>
    cases b with
    | call name' idempotent' arguments' =>
      rw [equals, Bool.and_eq_true, Bool.and_eq_true, allEqual_iff, beq_iff_eq, beq_iff_eq] at h
      obtain ⟨⟨rfl, harguments⟩, hidempotent⟩ := h
      have hmotive : List.Forall₂ motive arguments arguments' :=
        forall₂_of_forall_mem ih (harguments.imp fun _ _ hequals hargument => hargument hequals)
      exact call name idempotent idempotent' arguments arguments' hmotive hidempotent
    | integer _ | decimal _ | var _ | binary _ _ _ | negate _ => cases h

/-- Equal trees have the same attributes, at the root and at all nodes. -/
theorem attributes_of_equals {a b : Tree} (h : a.equals b = true) :
    a.attributes = b.attributes ∧ a.subtrees.map attributes = b.subtrees.map attributes := by
  refine equals_induction (motive := fun a b =>
    a.attributes = b.attributes ∧ a.subtrees.map attributes = b.subtrees.map attributes)
    (fun _ => ⟨rfl, rfl⟩) (fun _ _ _ => ⟨rfl, rfl⟩) (fun _ => ⟨rfl, rfl⟩) ?_ ?_ ?_ h
  · rintro op left right left' right' ⟨hleft, hbelow⟩ ⟨hright, hbelow'⟩
    have hroot : (binary op left right).attributes = (binary op left' right').attributes := by
      simp only [attributes, Prod.mk.injEq] at hleft hright
      simp [attributes, dataType, dependsOnVariables, isIdempotent, hleft, hright]
    refine ⟨hroot, ?_⟩
    rw [subtrees, subtrees, List.map_cons, List.map_cons, List.map_append, List.map_append, hroot,
      hbelow, hbelow']
  · rintro argument argument' ⟨hargument, hbelow⟩
    refine ⟨hargument, ?_⟩
    rw [subtrees, subtrees, List.map_cons, List.map_cons, hbelow]
    exact congrArg (· :: _) hargument
  · intro name idempotent idempotent' arguments arguments' harguments hidempotent
    have hattributes : arguments.map attributes = arguments'.map attributes :=
      map_eq_map_of_forall₂ (harguments.imp fun _ _ h => h.1)
    have hbelow : arguments.map (fun tree => tree.subtrees.map attributes) =
        arguments'.map (fun tree => tree.subtrees.map attributes) :=
      map_eq_map_of_forall₂ (harguments.imp fun _ _ h => h.2)
    have hroot : (call name idempotent arguments).attributes =
        (call name idempotent' arguments').attributes := by
      rw [attributes, attributes, dependsOnVariables, dependsOnVariables, isIdempotent,
        isIdempotent, hidempotent, anyDependsOnVariables_eq_any_attributes, hattributes,
        ← anyDependsOnVariables_eq_any_attributes]
      rfl
    refine ⟨hroot, ?_⟩
    rw [subtrees, subtrees, List.map_cons, List.map_cons, hroot, allSubtrees_eq, allSubtrees_eq,
      List.map_flatMap, List.map_flatMap, List.flatMap_def, hbelow, ← List.flatMap_def]

end Tree

end FormulaEngine
