import FormulaEngine.Proofs.Tree.Subtrees
import FormulaEngine.Tree.Folding

/-!
# The folding pass, case by case

`Tree.simplify` treats a tree in one of five ways: it evaluates it, keeps it
as it is, replaces a product by zero, rebuilds an operator, or rebuilds a
call.  `simplify_induction` is the induction over a successful pass with
these five cases, and every property of the pass is proved with it.

`Tree.Collapses` says that the pass replaces a product by zero because one
of its factors became zero.  The other factor is dropped with everything in
it, so a collapse is the one step that can lose a variable or an error.
`attributes_of_not_collapses` says so for the attributes of a tree.
-/

namespace FormulaEngine.Tree

/-! ## The equations of the pass -/

/-- The trees that the pass does not look into. -/
def isKept : Tree → Bool
  | .integer _ | .decimal _ | .var _ | .negate _ => true
  | .binary op _ _ => !descendsInto op
  | .call _ _ _ => false

theorem isFoldable_eq_true_iff {tree : Tree} :
    tree.isFoldable = true ↔
      tree.isLiteral = false ∧ tree.dependsOnVariables = false ∧ tree.isIdempotent = true := by
  simp [isFoldable, and_assoc]

/-- A foldable tree becomes its value. -/
theorem simplify_foldable_eq_ok_iff {functions : Functions} {tree tree' : Tree}
    (h : tree.isFoldable = true) :
    simplify functions tree = .ok tree' ↔
      ∃ value, tree.evaluate functions .empty = .ok value ∧ tree' = .decimal value := by
  rw [simplify.eq_def, if_pos h]
  cases tree.evaluate functions .empty with
  | error e => simp
  | ok value => simp [eq_comm]

/-- A tree that the pass does not look into stays as it is. -/
theorem simplify_of_kept (functions : Functions) {tree : Tree}
    (h : tree.isFoldable = false) (hkept : tree.isKept = true) :
    simplify functions tree = .ok tree := by
  rw [simplify.eq_def, if_neg (by simp [h])]
  cases tree with
  | integer _ | decimal _ | var _ | negate _ => rfl
  | binary op left right =>
    have hdescend : descendsInto op = false := by simpa [isKept] using hkept
    simp [hdescend]
  | call name idempotent arguments => simp [isKept] at hkept

/-- An operator that the pass looks into is rebuilt from its operands. -/
theorem simplify_binary_eq_ok_iff {functions : Functions} {op : BinaryOp}
    {left right tree' : Tree} (h : (binary op left right).isFoldable = false)
    (hdescend : descendsInto op = true) :
    simplify functions (.binary op left right) = .ok tree' ↔
      ∃ left' right', simplify functions left = .ok left' ∧
        simplify functions right = .ok right' ∧ tree' = rebuild op left' right' := by
  rw [simplify, if_neg (by simp [h])]
  rw [if_pos hdescend]
  cases simplify functions left with
  | error e => simp
  | ok left' =>
    cases simplify functions right with
    | error e => simp
    | ok right' => simp [eq_comm]

theorem simplifyAll_eq_ok_iff {functions : Functions} {trees trees' : List Tree} :
    simplifyAll functions trees = .ok trees' ↔
      List.Forall₂ (fun tree tree' => simplify functions tree = .ok tree') trees trees' := by
  induction trees generalizing trees' with
  | nil => simp [simplifyAll, eq_comm]
  | cons tree trees ih =>
    rw [simplifyAll, List.forall₂_cons_left_iff]
    constructor
    · intro h
      split at h
      · cases h
      · rename_i first hfirst
        split at h
        · cases h
        · rename_i rest hrest
          cases h
          exact ⟨first, rest, hfirst, ih.mp hrest, rfl⟩
    · rintro ⟨first, rest, hfirst, hrest, rfl⟩
      rw [hfirst, ih.mpr hrest]

/-- A call is rebuilt from its arguments. -/
theorem simplify_call_eq_ok_iff {functions : Functions} {name : String} {idempotent : Bool}
    {arguments : List Tree} {tree' : Tree}
    (h : (call name idempotent arguments).isFoldable = false) :
    simplify functions (.call name idempotent arguments) = .ok tree' ↔
      ∃ arguments',
        List.Forall₂ (fun argument argument' => simplify functions argument = .ok argument')
          arguments arguments' ∧
        tree' = .call name (idempotent && allIdempotent arguments) arguments' := by
  rw [simplify, if_neg (by simp [h])]
  simp only [← simplifyAll_eq_ok_iff]
  cases simplifyAll functions arguments with
  | error e => simp
  | ok arguments' => simp [eq_comm]

/-- A product with a zero factor is rebuilt as zero. -/
theorem rebuild_of_zero {left right : Tree}
    (h : (left.isZeroDecimal || right.isZeroDecimal) = true) :
    rebuild .multiply left right = .decimal .zero := if_pos h

/-- Any other operator is rebuilt as itself. -/
theorem rebuild_of_not_zero {op : BinaryOp} {left right : Tree}
    (h : op = .multiply → (left.isZeroDecimal || right.isZeroDecimal) = false) :
    rebuild op left right = .binary op left right := by
  cases op with
  | multiply => exact if_neg (by simp [h rfl])
  | _ => rfl

/-! ## Induction over a pass -/

/-- Induction over a successful pass. -/
theorem simplify_induction {functions : Functions} {motive : Tree → Tree → Prop}
    (folded : ∀ tree value, tree.isFoldable = true →
      tree.evaluate functions .empty = .ok value → motive tree (.decimal value))
    (kept : ∀ tree, tree.isFoldable = false → tree.isKept = true → motive tree tree)
    (collapsed : ∀ left right left' right', (binary .multiply left right).isFoldable = false →
      simplify functions left = .ok left' → simplify functions right = .ok right' →
      (left'.isZeroDecimal || right'.isZeroDecimal) = true →
      motive left left' → motive right right' →
      motive (.binary .multiply left right) (.decimal .zero))
    (rebuilt : ∀ op left right left' right', (binary op left right).isFoldable = false →
      descendsInto op = true →
      simplify functions left = .ok left' → simplify functions right = .ok right' →
      (op = .multiply → (left'.isZeroDecimal || right'.isZeroDecimal) = false) →
      motive left left' → motive right right' →
      motive (.binary op left right) (.binary op left' right'))
    (called : ∀ name idempotent arguments arguments',
      (call name idempotent arguments).isFoldable = false →
      List.Forall₂ (fun argument argument' => simplify functions argument = .ok argument')
        arguments arguments' →
      List.Forall₂ motive arguments arguments' →
      motive (.call name idempotent arguments)
        (.call name (idempotent && allIdempotent arguments) arguments'))
    {tree tree' : Tree} (h : simplify functions tree = .ok tree') : motive tree tree' := by
  induction tree generalizing tree' with
  | integer value =>
    rw [simplify_of_kept functions rfl rfl] at h
    cases h
    exact kept _ rfl rfl
  | decimal value =>
    rw [simplify_of_kept functions rfl rfl] at h
    cases h
    exact kept _ rfl rfl
  | var name =>
    rw [simplify_of_kept functions rfl rfl] at h
    cases h
    exact kept _ rfl rfl
  | binary op left right ihl ihr =>
    cases hfold : (binary op left right).isFoldable with
    | true =>
      obtain ⟨value, hvalue, rfl⟩ := (simplify_foldable_eq_ok_iff hfold).mp h
      exact folded _ value hfold hvalue
    | false =>
      cases hdescend : descendsInto op with
      | false =>
        have hkept : (binary op left right).isKept = true := by simp [isKept, hdescend]
        rw [simplify_of_kept functions hfold hkept] at h
        cases h
        exact kept _ hfold hkept
      | true =>
        obtain ⟨left', right', hleft, hright, rfl⟩ :=
          (simplify_binary_eq_ok_iff hfold hdescend).mp h
        by_cases hcollapse :
            op = .multiply ∧ (left'.isZeroDecimal || right'.isZeroDecimal) = true
        · obtain ⟨rfl, hzero⟩ := hcollapse
          rw [rebuild_of_zero hzero]
          exact collapsed _ _ _ _ hfold hleft hright hzero (ihl hleft) (ihr hright)
        · have hzero : op = .multiply →
              (left'.isZeroDecimal || right'.isZeroDecimal) = false :=
            fun hop => Bool.eq_false_iff.mpr fun h => hcollapse ⟨hop, h⟩
          rw [rebuild_of_not_zero hzero]
          exact rebuilt _ _ _ _ _ hfold hdescend hleft hright hzero (ihl hleft) (ihr hright)
  | negate argument ih =>
    cases hfold : (negate argument).isFoldable with
    | true =>
      obtain ⟨value, hvalue, rfl⟩ := (simplify_foldable_eq_ok_iff hfold).mp h
      exact folded _ value hfold hvalue
    | false =>
      rw [simplify_of_kept functions hfold rfl] at h
      cases h
      exact kept _ hfold rfl
  | call name idempotent arguments ih =>
    cases hfold : (call name idempotent arguments).isFoldable with
    | true =>
      obtain ⟨value, hvalue, rfl⟩ := (simplify_foldable_eq_ok_iff hfold).mp h
      exact folded _ value hfold hvalue
    | false =>
      obtain ⟨arguments', harguments, rfl⟩ := (simplify_call_eq_ok_iff hfold).mp h
      refine called _ _ _ _ hfold harguments ?_
      have hboth := (List.forall₂_and_left _ _).mpr ⟨ih, harguments⟩
      exact hboth.imp fun argument argument' hargument => hargument.1 hargument.2

/-! ## Collapsed products -/

/-- The pass replaces a product in the tree by zero because a factor of it
became zero. -/
inductive Collapses (functions : Functions) : Tree → Prop where
  | product {left right left' right' : Tree}
      (hfold : (binary .multiply left right).isFoldable = false)
      (hleft : simplify functions left = .ok left')
      (hright : simplify functions right = .ok right')
      (hzero : (left'.isZeroDecimal || right'.isZeroDecimal) = true) :
      Collapses functions (.binary .multiply left right)
  | left {op : BinaryOp} {left right : Tree}
      (hfold : (binary op left right).isFoldable = false) (hdescend : descendsInto op = true)
      (h : Collapses functions left) : Collapses functions (.binary op left right)
  | right {op : BinaryOp} {left right : Tree}
      (hfold : (binary op left right).isFoldable = false) (hdescend : descendsInto op = true)
      (h : Collapses functions right) : Collapses functions (.binary op left right)
  | argument {name : String} {idempotent : Bool} {arguments : List Tree} {argument : Tree}
      (hfold : (call name idempotent arguments).isFoldable = false)
      (hmem : argument ∈ arguments) (h : Collapses functions argument) :
      Collapses functions (.call name idempotent arguments)

/-- Without a collapse in a call there is none in its arguments. -/
theorem forall₂_of_not_collapses {functions : Functions} {name : String} {idempotent : Bool}
    {arguments arguments' : List Tree} {R : Tree → Tree → Prop}
    (hfold : (call name idempotent arguments).isFoldable = false)
    (hcollapse : ¬Collapses functions (.call name idempotent arguments))
    (h : List.Forall₂ (fun argument argument' =>
      ¬Collapses functions argument → R argument argument') arguments arguments') :
    List.Forall₂ R arguments arguments' :=
  forall₂_of_forall_mem
    (fun _ hmem hargument => hcollapse (.argument hfold hmem hargument)) h

/-! ## Attributes -/

theorem allIdempotent_of_forall₂ {trees trees' : List Tree}
    (h : List.Forall₂ (fun tree tree' =>
      tree.isIdempotent = true → tree'.isIdempotent = true) trees trees') :
    allIdempotent trees = true → allIdempotent trees' = true := by
  induction h with
  | nil => exact id
  | cons hhead _ ih =>
    rw [allIdempotent, allIdempotent, Bool.and_eq_true, Bool.and_eq_true]
    exact fun hidempotent => ⟨hhead hidempotent.1, ih hidempotent.2⟩

/-- Lists of trees with the same attributes one by one have them together. -/
theorem attributes_congr {trees trees' : List Tree}
    (h : List.Forall₂ (fun tree tree' =>
      tree'.dependsOnVariables = tree.dependsOnVariables ∧
        tree'.isIdempotent = tree.isIdempotent) trees trees') :
    anyDependsOnVariables trees' = anyDependsOnVariables trees ∧
      allIdempotent trees' = allIdempotent trees := by
  induction h with
  | nil => exact ⟨rfl, rfl⟩
  | cons hhead _ ih =>
    rw [anyDependsOnVariables, anyDependsOnVariables, allIdempotent, allIdempotent,
      hhead.1, hhead.2, ih.1, ih.2]
    exact ⟨rfl, rfl⟩

/-- An idempotent tree stays idempotent. -/
theorem isIdempotent_simplify {functions : Functions} {tree tree' : Tree}
    (h : simplify functions tree = .ok tree') :
    tree.isIdempotent = true → tree'.isIdempotent = true := by
  refine simplify_induction (motive := fun tree tree' =>
    tree.isIdempotent = true → tree'.isIdempotent = true) ?_ ?_ ?_ ?_ ?_ h
  · intro tree value _ _ _
    rfl
  · intro tree _ _ hidempotent
    exact hidempotent
  · intro left right left' right' _ _ _ _ _ _ _
    rfl
  · intro op left right left' right' _ _ _ _ _ ihl ihr hidempotent
    rw [isIdempotent, Bool.and_eq_true] at hidempotent ⊢
    exact ⟨ihl hidempotent.1, ihr hidempotent.2⟩
  · intro name idempotent arguments arguments' _ _ ih hidempotent
    rw [isIdempotent, Bool.and_eq_true] at hidempotent ⊢
    refine ⟨by simpa using hidempotent, ?_⟩
    exact allIdempotent_of_forall₂ ih hidempotent.2

theorem allIdempotent_of_simplified {functions : Functions} {trees trees' : List Tree}
    (h : List.Forall₂ (fun tree tree' => simplify functions tree = .ok tree') trees trees') :
    allIdempotent trees = true → allIdempotent trees' = true :=
  allIdempotent_of_forall₂ (h.imp fun _ _ => isIdempotent_simplify)

/-- What a rebuilt call is marked with already covers its new arguments. -/
theorem and_allIdempotent_of_simplified {functions : Functions} {trees trees' : List Tree}
    (idempotent : Bool)
    (h : List.Forall₂ (fun tree tree' => simplify functions tree = .ok tree') trees trees') :
    ((idempotent && allIdempotent trees) && allIdempotent trees') =
      (idempotent && allIdempotent trees) := by
  cases hall : allIdempotent trees with
  | true => rw [allIdempotent_of_simplified h hall, Bool.and_true]
  | false => rw [Bool.and_false, Bool.false_and]

/-- A pass without a collapse keeps both attributes of a tree. -/
theorem attributes_of_not_collapses {functions : Functions} {tree tree' : Tree}
    (h : simplify functions tree = .ok tree') :
    ¬Collapses functions tree →
      tree'.dependsOnVariables = tree.dependsOnVariables ∧
        tree'.isIdempotent = tree.isIdempotent := by
  refine simplify_induction (motive := fun tree tree' =>
    ¬Collapses functions tree →
      tree'.dependsOnVariables = tree.dependsOnVariables ∧
        tree'.isIdempotent = tree.isIdempotent) ?_ ?_ ?_ ?_ ?_ h
  · intro tree value hfold _ _
    obtain ⟨_, hclosed, hidempotent⟩ := isFoldable_eq_true_iff.mp hfold
    rw [hclosed, hidempotent]
    exact ⟨rfl, rfl⟩
  · intro tree _ _ _
    exact ⟨rfl, rfl⟩
  · intro left right left' right' hfold hleft hright hzero _ _ hcollapse
    exact absurd (.product hfold hleft hright hzero) hcollapse
  · intro op left right left' right' hfold hdescend _ _ _ ihl ihr hcollapse
    obtain ⟨hdl, hil⟩ := ihl fun h => hcollapse (.left hfold hdescend h)
    obtain ⟨hdr, hir⟩ := ihr fun h => hcollapse (.right hfold hdescend h)
    simp only [dependsOnVariables, isIdempotent, hdl, hdr, hil, hir]
    exact ⟨trivial, trivial⟩
  · intro name idempotent arguments arguments' hfold _ ih hcollapse
    obtain ⟨hdepends, hidempotent⟩ :=
      attributes_congr (forall₂_of_not_collapses hfold hcollapse ih)
    refine ⟨hdepends, ?_⟩
    rw [isIdempotent, isIdempotent, hidempotent, Bool.and_assoc, Bool.and_self]

end FormulaEngine.Tree
