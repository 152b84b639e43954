import FormulaEngine.Builtin
import FormulaEngine.Proofs.Assembly.Steps
import FormulaEngine.Proofs.Folding.Pass
import FormulaEngine.Proofs.Registry.History
import FormulaEngine.Proofs.Tree.Equality
import FormulaEngine.Tree.Reader

/-!
# The attributes of a simplified tree

A call is idempotent if its function is registered so and its arguments are
idempotent.  `Tree.givenAttributes?` states this rule and those for the other
nodes, and a tree has exact attributes if every node follows them.  Every
assembled tree has (`hasExactAttributes_of_ofTokens`).

The pass rebuilds a call with what the old call was, not with what its function
is.  A collapsed product can take the last call away that made an argument not
idempotent.  Then the rebuilt call stays marked, although nothing below it is
any more: `max(x, random() * 0.0)` becomes `max(x, 0)`.

`Tree.Overlooks` says that this happens in a tree.
`hasExactAttributes_simplify_iff` says that it is the only way in which a pass
can spoil the attributes, and `Overlooks.collapses` that it takes a collapse.
-/

namespace FormulaEngine

namespace Tree

/-! ## Attributes by definition -/

/-- The attributes that the trees below a node give it, and in a call also its
function. -/
def givenAttributes? (functions : Functions) : Tree → Option (DataType × Bool × Bool)
  | .integer _ => some (.integer, false, true)
  | .decimal _ => some (.decimal, false, true)
  | .var _ => some (.decimal, true, true)
  | .binary op left right =>
    some (op.resultType left.dataType right.dataType,
      left.dependsOnVariables || right.dependsOnVariables,
      left.isIdempotent && right.isIdempotent)
  | .negate argument => some argument.attributes
  | .call name _ arguments =>
    (functions.find? name).map fun entry =>
      (.decimal, arguments.any dependsOnVariables,
        entry.content.isIdempotent && arguments.all isIdempotent)

/-- Every node has the attributes that it is given. -/
def HasExactAttributes (functions : Functions) (tree : Tree) : Prop :=
  ∀ node ∈ tree.subtrees, node.givenAttributes? functions = some node.attributes

/-- A node that is given to be idempotent and is not marked so.  Its other
attributes are exact. -/
def IsUnderstated (functions : Functions) (node : Tree) : Prop :=
  ∃ dataType dependsOnVariables,
    node.givenAttributes? functions = some (dataType, dependsOnVariables, true) ∧
      node.attributes = (dataType, dependsOnVariables, false)

variable {functions : Functions}

instance (tree : Tree) : Decidable (tree.HasExactAttributes functions) :=
  inferInstanceAs (Decidable (∀ node ∈ tree.subtrees, _ = _))

theorem hasExactAttributes_literal {tree : Tree} (h : tree.isLiteral = true) :
    tree.HasExactAttributes functions := by
  cases tree with
  | integer _ | decimal _ => exact List.forall_mem_singleton.mpr rfl
  | var _ | binary _ _ _ | negate _ | call _ _ _ => cases h

theorem hasExactAttributes_binary_iff {op : BinaryOp} {left right : Tree} :
    (binary op left right).HasExactAttributes functions ↔
      left.HasExactAttributes functions ∧ right.HasExactAttributes functions := by
  rw [HasExactAttributes, subtrees, List.forall_mem_cons, List.forall_mem_append]
  exact and_iff_right rfl

theorem hasExactAttributes_negate_iff {argument : Tree} :
    (negate argument).HasExactAttributes functions ↔ argument.HasExactAttributes functions := by
  rw [HasExactAttributes, subtrees, List.forall_mem_cons]
  exact and_iff_right rfl

/-- Only the idempotency of a call can be wrong. -/
theorem givenAttributes?_call_iff {name : String} {idempotent : Bool} {arguments : List Tree} :
    (call name idempotent arguments).givenAttributes? functions =
        some (call name idempotent arguments).attributes ↔
      ∃ entry, functions.find? name = some entry ∧
        (entry.content.isIdempotent && allIdempotent arguments) =
          (idempotent && allIdempotent arguments) := by
  rw [givenAttributes?, Option.map_eq_some_iff]
  simp only [attributes, dataType, dependsOnVariables, isIdempotent, anyDependsOnVariables_eq,
    allIdempotent_eq, Prod.mk.injEq, true_and]

theorem hasExactAttributes_call_iff {name : String} {idempotent : Bool} {arguments : List Tree} :
    (call name idempotent arguments).HasExactAttributes functions ↔
      (∃ entry, functions.find? name = some entry ∧
        (entry.content.isIdempotent && allIdempotent arguments) =
          (idempotent && allIdempotent arguments)) ∧
        ∀ argument ∈ arguments, argument.HasExactAttributes functions := by
  rw [HasExactAttributes, subtrees, List.forall_mem_cons, givenAttributes?_call_iff,
    allSubtrees_eq]
  simp only [List.forall_mem_flatMap]
  rfl

/-- Assembled trees have exact attributes. -/
theorem inherited_hasExactAttributes (scope : Scope) :
    Assembly.Inherited scope (HasExactAttributes scope.functions) := by
  constructor
  case operand =>
    intro token tree h
    cases h <;> exact List.forall_mem_singleton.mpr rfl
  case negate => exact fun argument h => hasExactAttributes_negate_iff.mpr h
  case binary => exact fun op left right hl hr => hasExactAttributes_binary_iff.mpr ⟨hl, hr⟩
  case call =>
    intro name entry arguments hfunction harguments
    exact hasExactAttributes_call_iff.mpr
      ⟨⟨entry, Registry.find?_name hfunction, rfl⟩, harguments⟩

theorem hasExactAttributes_of_ofTokens {scope : Scope} {tokens : List Token} {tree : Tree}
    (h : ofTokens scope tokens = .ok tree) : tree.HasExactAttributes scope.functions :=
  (inherited_hasExactAttributes scope).of_ofTokens h

/-! ## Overlooked calls -/

/-- What becomes something else than a literal is not folded. -/
theorem isFoldable_of_rebuilt {tree tree' : Tree} (hother : tree'.isLiteral = false)
    (h : simplify functions tree = .ok tree') : tree.isFoldable = false := by
  rw [Bool.eq_false_iff]
  intro hfold
  obtain ⟨value, _, rfl⟩ := (simplify_foldable_eq_ok_iff hfold).mp h
  cases hother

/-- Arguments of an idempotent function that are all idempotent after the pass,
and were not before. -/
def BecomeIdempotent (functions : Functions) (name : String) (arguments arguments' : List Tree) :
    Prop :=
  ∃ entry, functions.find? name = some entry ∧ entry.content.isIdempotent = true ∧
    allIdempotent arguments = false ∧ allIdempotent arguments' = true

/-- The pass rebuilds a call whose arguments become idempotent. -/
inductive Overlooks (functions : Functions) : Tree → Prop where
  | call {name : String} {idempotent idempotent' : Bool} {arguments arguments' : List Tree}
      (hrebuilt : simplify functions (.call name idempotent arguments) =
        .ok (.call name idempotent' arguments'))
      (hbecome : BecomeIdempotent functions name arguments arguments') :
      Overlooks functions (.call name idempotent arguments)
  | argument {name : String} {idempotent idempotent' : Bool}
      {arguments arguments' : List Tree} {argument : Tree}
      (hrebuilt : simplify functions (.call name idempotent arguments) =
        .ok (.call name idempotent' arguments'))
      (hmem : argument ∈ arguments) (h : Overlooks functions argument) :
      Overlooks functions (.call name idempotent arguments)
  | left {op : BinaryOp} {left right left' right' : Tree} (hdescend : descendsInto op = true)
      (hrebuilt : simplify functions (.binary op left right) = .ok (.binary op left' right'))
      (h : Overlooks functions left) : Overlooks functions (.binary op left right)
  | right {op : BinaryOp} {left right left' right' : Tree} (hdescend : descendsInto op = true)
      (hrebuilt : simplify functions (.binary op left right) = .ok (.binary op left' right'))
      (h : Overlooks functions right) : Overlooks functions (.binary op left right)

/-- In a tree that is evaluated or dropped nothing is rebuilt. -/
theorem not_overlooks_of_decimal {tree : Tree} {value : Decimal}
    (h : simplify functions tree = .ok (.decimal value)) : ¬tree.Overlooks functions := by
  intro hoverlooks
  cases hoverlooks with
  | call hrebuilt | argument hrebuilt | left _ hrebuilt | right _ hrebuilt =>
    rw [h] at hrebuilt
    cases hrebuilt

theorem not_overlooks_of_kept {tree : Tree} (h : tree.isKept = true) :
    ¬tree.Overlooks functions := by
  intro hoverlooks
  cases hoverlooks with
  | call | argument => cases h
  | left hdescend | right hdescend =>
    rw [isKept, hdescend] at h
    cases h

theorem overlooks_binary_iff {op : BinaryOp} {left right left' right' : Tree}
    (hdescend : descendsInto op = true)
    (hrebuilt : simplify functions (.binary op left right) = .ok (.binary op left' right')) :
    (binary op left right).Overlooks functions ↔
      left.Overlooks functions ∨ right.Overlooks functions := by
  constructor
  · intro h
    cases h with
    | left _ _ h => exact .inl h
    | right _ _ h => exact .inr h
  · rintro (h | h)
    · exact .left hdescend hrebuilt h
    · exact .right hdescend hrebuilt h

theorem overlooks_call_iff {name : String} {idempotent idempotent' : Bool}
    {arguments arguments' : List Tree}
    (hrebuilt : simplify functions (.call name idempotent arguments) =
      .ok (.call name idempotent' arguments')) :
    (call name idempotent arguments).Overlooks functions ↔
      BecomeIdempotent functions name arguments arguments' ∨
        ∃ argument ∈ arguments, argument.Overlooks functions := by
  constructor
  · intro h
    cases h with
    | call hrebuilt' hbecome =>
      rw [hrebuilt] at hrebuilt'
      cases hrebuilt'
      exact .inl hbecome
    | argument _ hmem h => exact .inr ⟨_, hmem, h⟩
  · rintro (hbecome | ⟨argument, hmem, h⟩)
    · exact .call hrebuilt hbecome
    · exact .argument hrebuilt hmem h

/-- A call is overlooked only because of a collapse. -/
theorem Overlooks.collapses {tree : Tree} (h : tree.Overlooks functions) :
    tree.Collapses functions := by
  induction h with
  | @call name idempotent idempotent' arguments arguments' hrebuilt hbecome =>
    obtain ⟨_, _, _, hbefore, hafter⟩ := hbecome
    have hfold : (Tree.call name idempotent arguments).isFoldable = false :=
      isFoldable_of_rebuilt rfl hrebuilt
    obtain ⟨_, harguments, heq⟩ := (simplify_call_eq_ok_iff hfold).mp hrebuilt
    cases heq
    by_contra hcollapse
    -- Without a collapse the arguments keep their attributes.
    have hkept : List.Forall₂ (fun argument argument' =>
        argument'.dependsOnVariables = argument.dependsOnVariables ∧
          argument'.isIdempotent = argument.isIdempotent) arguments arguments' :=
      forall₂_of_not_collapses hfold hcollapse
        (harguments.imp fun _ _ => attributes_of_not_collapses)
    rw [(attributes_congr hkept).2, hbefore] at hafter
    cases hafter
  | argument hrebuilt hmem _ ih => exact .argument (isFoldable_of_rebuilt rfl hrebuilt) hmem ih
  | left hdescend hrebuilt _ ih => exact .left (isFoldable_of_rebuilt rfl hrebuilt) hdescend ih
  | right hdescend hrebuilt _ ih => exact .right (isFoldable_of_rebuilt rfl hrebuilt) hdescend ih

/-- A tree with an overlooked call is not idempotent. -/
theorem Overlooks.isIdempotent_eq_false {tree : Tree} (h : tree.Overlooks functions) :
    tree.isIdempotent = false := by
  induction h with
  | call _ hbecome =>
    obtain ⟨_, _, _, hbefore, _⟩ := hbecome
    rw [isIdempotent, hbefore, Bool.and_false]
  | argument _ hmem _ ih =>
    rw [isIdempotent, allIdempotent_eq, List.all_eq_false.mpr ⟨_, hmem, Bool.eq_false_iff.mp ih⟩,
      Bool.and_false]
  | left _ _ _ ih => rw [isIdempotent, ih, Bool.false_and]
  | right _ _ _ ih => rw [isIdempotent, ih, Bool.and_false]

/-! ## A pass over exact attributes -/

theorem forall_mem_iff_of_forall₂ {α β : Type} {p : β → Prop} {q : α → Prop} {as : List α}
    {bs : List β} (h : List.Forall₂ (fun a b => p b ↔ q a) as bs) :
    (∀ b ∈ bs, p b) ↔ ∀ a ∈ as, q a := by
  induction h with
  | nil => simp
  | cons hhead _ ih => rw [List.forall_mem_cons, List.forall_mem_cons, hhead, ih]

/-- A rebuilt call is exact unless its arguments become idempotent, and then it
is understated. -/
theorem attributes_rebuilt_call {name : String} {idempotent : Bool}
    {arguments arguments' : List Tree}
    (hexact : ∃ entry, functions.find? name = some entry ∧
      (entry.content.isIdempotent && allIdempotent arguments) =
        (idempotent && allIdempotent arguments))
    (hsimplified : List.Forall₂ (fun argument argument' =>
      simplify functions argument = .ok argument') arguments arguments') :
    let rebuilt := call name (idempotent && allIdempotent arguments) arguments'
    (rebuilt.givenAttributes? functions = some rebuilt.attributes ↔
      ¬BecomeIdempotent functions name arguments arguments') ∧
    (BecomeIdempotent functions name arguments arguments' →
      rebuilt.IsUnderstated functions) := by
  intro rebuilt
  obtain ⟨entry, hfunction, hexact⟩ := hexact
  have hkept := allIdempotent_of_simplified hsimplified
  constructor
  · rw [givenAttributes?_call_iff, BecomeIdempotent, hfunction, ← hexact]
    simp only [Option.some.injEq, exists_eq_left']
    generalize entry.content.isIdempotent = registered, allIdempotent arguments = before,
      allIdempotent arguments' = after at hkept ⊢
    cases registered <;> cases before <;> cases after <;> simp_all
  · rintro ⟨found, hfound, hidempotent, hbefore, hafter⟩
    refine ⟨.decimal, anyDependsOnVariables arguments', ?_, ?_⟩
    · rw [givenAttributes?, hfound, Option.map_some, hidempotent, ← allIdempotent_eq, hafter,
        ← anyDependsOnVariables_eq, Bool.and_self]
    · rw [attributes, dataType, dependsOnVariables, isIdempotent, hbefore, Bool.and_false,
        Bool.false_and]

/-- A pass keeps the attributes of a tree exact unless it overlooks a call. -/
theorem hasExactAttributes_simplify_iff {tree simplified : Tree}
    (hexact : tree.HasExactAttributes functions)
    (h : simplify functions tree = .ok simplified) :
    simplified.HasExactAttributes functions ↔ ¬tree.Overlooks functions := by
  refine simplify_induction (motive := fun tree simplified =>
    tree.HasExactAttributes functions →
      (simplified.HasExactAttributes functions ↔ ¬tree.Overlooks functions))
    ?_ ?_ ?_ ?_ ?_ h hexact
  · intro tree value hfold hvalue _
    have hfolded := (simplify_foldable_eq_ok_iff hfold).mpr ⟨value, hvalue, rfl⟩
    exact iff_of_true (hasExactAttributes_literal rfl) (not_overlooks_of_decimal hfolded)
  · intro tree _ hkept hexact
    exact iff_of_true hexact (not_overlooks_of_kept hkept)
  · intro left right left' right' hfold hleft hright hzero _ _ _
    have hcollapsed := (simplify_binary_eq_ok_iff hfold rfl).mpr
      ⟨left', right', hleft, hright, (rebuild_of_zero hzero).symm⟩
    exact iff_of_true (hasExactAttributes_literal rfl) (not_overlooks_of_decimal hcollapsed)
  · intro op left right left' right' hfold hdescend hleft hright hzero ihl ihr hexact
    have hrebuilt := (simplify_binary_eq_ok_iff hfold hdescend).mpr
      ⟨left', right', hleft, hright, (rebuild_of_not_zero hzero).symm⟩
    obtain ⟨hl, hr⟩ := hasExactAttributes_binary_iff.mp hexact
    rw [hasExactAttributes_binary_iff, overlooks_binary_iff hdescend hrebuilt, not_or, ihl hl,
      ihr hr]
  · intro name idempotent arguments arguments' hfold hsimplified ih hexact
    have hrebuilt := (simplify_call_eq_ok_iff hfold).mpr ⟨arguments', hsimplified, rfl⟩
    rw [hasExactAttributes_call_iff] at hexact
    obtain ⟨hcall, harguments⟩ := hexact
    have hbelow := forall_mem_iff_of_forall₂ (forall₂_of_forall_mem harguments ih)
    rw [hasExactAttributes_call_iff, overlooks_call_iff hrebuilt, not_or, hbelow,
      ← givenAttributes?_call_iff, (attributes_rebuilt_call hcall hsimplified).1]
    simp only [not_exists, not_and]

/-- A node that is not exact after a pass is understated. -/
theorem exact_or_understated_of_simplify {tree simplified : Tree}
    (hexact : tree.HasExactAttributes functions)
    (h : simplify functions tree = .ok simplified) :
    ∀ node ∈ simplified.subtrees,
      node.givenAttributes? functions = some node.attributes ∨ node.IsUnderstated functions := by
  refine simplify_induction (motive := fun tree simplified =>
    tree.HasExactAttributes functions → ∀ node ∈ simplified.subtrees,
      node.givenAttributes? functions = some node.attributes ∨ node.IsUnderstated functions)
    ?_ ?_ ?_ ?_ ?_ h hexact
  · intro tree value _ _ _
    exact List.forall_mem_singleton.mpr (.inl rfl)
  · intro tree _ _ hexact node hmem
    exact .inl (hexact node hmem)
  · intro left right left' right' _ _ _ _ _ _ _
    exact List.forall_mem_singleton.mpr (.inl rfl)
  · intro op left right left' right' _ _ _ _ _ ihl ihr hexact
    obtain ⟨hl, hr⟩ := hasExactAttributes_binary_iff.mp hexact
    rw [subtrees, List.forall_mem_cons, List.forall_mem_append]
    exact ⟨.inl rfl, ihl hl, ihr hr⟩
  · intro name idempotent arguments arguments' _ hsimplified ih hexact
    rw [hasExactAttributes_call_iff] at hexact
    obtain ⟨hcall, harguments⟩ := hexact
    obtain ⟨hiff, hunderstated⟩ := attributes_rebuilt_call hcall hsimplified
    rw [subtrees, List.forall_mem_cons, allSubtrees_eq, List.forall_mem_flatMap]
    refine ⟨?_, forall_mem_of_forall₂ (forall₂_of_forall_mem harguments ih).flip⟩
    by_cases hbecome : BecomeIdempotent functions name arguments arguments'
    · exact .inr (hunderstated hbecome)
    · exact .inl (hiff.mpr hbecome)

/-! ## Assembled trees -/

/-- After a pass over an assembled tree every node has exact attributes or is
understated.  All are exact if and only if the pass overlooks no call, and so
they are if no product collapses or the tree calls idempotent functions only. -/
theorem attributes_after_pass {scope : Scope} {tokens : List Token} {tree simplified : Tree}
    (hassemble : ofTokens scope tokens = .ok tree)
    (h : simplify scope.functions tree = .ok simplified) :
    (∀ node ∈ simplified.subtrees,
      node.givenAttributes? scope.functions = some node.attributes ∨
        node.IsUnderstated scope.functions) ∧
    (simplified.HasExactAttributes scope.functions ↔ ¬tree.Overlooks scope.functions) ∧
    (¬tree.Collapses scope.functions ∨ tree.isIdempotent = true →
      simplified.HasExactAttributes scope.functions) := by
  have hexact := hasExactAttributes_of_ofTokens hassemble
  have hiff := hasExactAttributes_simplify_iff hexact h
  refine ⟨exact_or_understated_of_simplify hexact h, hiff, ?_⟩
  rintro (hcollapse | hidempotent)
  · exact hiff.mpr fun hoverlooks => hcollapse hoverlooks.collapses
  · refine hiff.mpr fun hoverlooks => ?_
    rw [hoverlooks.isIdempotent_eq_false] at hidempotent
    cases hidempotent

/-- The built-in functions, of which `random` alone is not idempotent. -/
def builtinScope : Scope := ⟨Builtin.functionRegistry false .zero, .empty false, false⟩

theorem one_scale_le : 1 ≤ 28 := by decide

/-- The decimal that is written `0.0`. -/
def zeroPointZero : Tree :=
  .decimal ⟨false, 0, 1, Decimal.zero_coefficient_lt, one_scale_le⟩

/-- A product collapses in an argument, but another argument is not idempotent
either. -/
theorem attributes_after_pass_of_remaining_call :
    ∃ tokens tree simplified,
      tokenize {} "max(random() * 0.0, random())" = .ok tokens ∧
        ofTokens builtinScope tokens = .ok tree ∧
        tree.simplify builtinScope.functions = .ok simplified ∧
        simplified.subtrees.map attributes =
          [(.decimal, false, false), (.decimal, false, true), (.decimal, false, false)] ∧
        ¬tree.Overlooks builtinScope.functions := by
  have hread : Tree.read {} builtinScope "max(random() * 0.0, random())" =
      .ok (.call "max" true [.binary .multiply (.call "random" false []) zeroPointZero,
        .call "random" false []]) := by
    with_unfolding_all rfl
  obtain ⟨tokens, htokens, hassemble⟩ := exists_ofTokens_of_read hread
  have hsimplify : simplify builtinScope.functions
      (.call "max" true [.binary .multiply (.call "random" false []) zeroPointZero,
        .call "random" false []]) =
      .ok (.call "max" false [.decimal .zero, .call "random" false []]) := by
    rfl
  obtain ⟨-, hiff, -⟩ := attributes_after_pass hassemble hsimplify
  exact ⟨tokens, _, _, htokens, hassemble, hsimplify, by decide, hiff.mp (by decide)⟩

/-- The call of `max` stays marked after the only call of `random` is gone. -/
theorem attributes_after_pass_of_dropped_call :
    ∃ tokens tree simplified,
      tokenize {} "max(x, random() * 0.0)" = .ok tokens ∧
        ofTokens builtinScope tokens = .ok tree ∧
        tree.simplify builtinScope.functions = .ok simplified ∧
        simplified.givenAttributes? builtinScope.functions = some (.decimal, true, true) ∧
        simplified.attributes = (.decimal, true, false) ∧
        ¬simplified.HasExactAttributes builtinScope.functions := by
  have hread : Tree.read {} builtinScope "max(x, random() * 0.0)" =
      .ok (.call "max" true [.var "x", .binary .multiply (.call "random" false [])
        zeroPointZero]) := by
    with_unfolding_all rfl
  obtain ⟨tokens, htokens, hassemble⟩ := exists_ofTokens_of_read hread
  have hsimplify : simplify builtinScope.functions
      (.call "max" true [.var "x", .binary .multiply (.call "random" false [])
        zeroPointZero]) =
      .ok (.call "max" false [.var "x", .decimal .zero]) := by
    rfl
  exact ⟨tokens, _, _, htokens, hassemble, hsimplify, rfl, rfl, by decide⟩

end Tree

end FormulaEngine
