import FormulaEngine.Tree
import Mathlib.Data.List.Forall2

/-!
# Subtrees

A call holds its arguments in a list, so the induction that Lean derives for
formula trees speaks of trees and of lists of trees at once.
`Tree.induction` is the induction that proofs want: a call comes with the
hypothesis for every member of its arguments.

`Tree.subtrees` lists a tree and all trees below it.  A statement about every
node of a tree is a statement about the members of that list.
`Tree.variableNames` and `Tree.functionNames` are the names that occur in a
tree, in the two ways in which a name can occur.

What is done to the arguments of a call is done to each of them, so proofs
about calls speak of two lists in step, with `List.Forall₂`.
-/

namespace FormulaEngine

/-- If every member of a list has a partner, the list has a list of partners. -/
theorem exists_forall₂ {α β : Type} {R : α → β → Prop} {as : List α}
    (h : ∀ a ∈ as, ∃ b, R a b) : ∃ bs, List.Forall₂ R as bs := by
  induction as with
  | nil => exact ⟨[], .nil⟩
  | cons a as ih =>
    obtain ⟨b, hb⟩ := h a List.mem_cons_self
    obtain ⟨bs, hbs⟩ := ih fun a' hmem => h a' (List.mem_cons_of_mem _ hmem)
    exact ⟨b :: bs, .cons hb hbs⟩

/-- What holds in step for the members with a property, when all have it. -/
theorem forall₂_of_forall_mem {α β : Type} {p : α → Prop} {R : α → β → Prop} {as : List α}
    {bs : List β} (hp : ∀ a ∈ as, p a) (h : List.Forall₂ (fun a b => p a → R a b) as bs) :
    List.Forall₂ R as bs :=
  ((List.forall₂_and_left as bs).mpr ⟨hp, h⟩).imp fun _ _ hab => hab.2 hab.1

theorem forall_mem_of_forall₂ {α β : Type} {p : α → Prop} {as : List α} {bs : List β}
    (h : List.Forall₂ (fun a _ => p a) as bs) : ∀ a ∈ as, p a := by
  induction h with
  | nil => intro a hmem; cases hmem
  | cons hhead _ ih => exact List.forall_mem_cons.mpr ⟨hhead, ih⟩

namespace Tree

/-! ## Induction -/

/-- Induction over trees. -/
@[elab_as_elim, induction_eliminator]
theorem induction {motive : Tree → Prop}
    (integer : ∀ value, motive (.integer value))
    (decimal : ∀ value, motive (.decimal value))
    (var : ∀ name, motive (.var name))
    (binary : ∀ op left right, motive left → motive right → motive (.binary op left right))
    (negate : ∀ argument, motive argument → motive (.negate argument))
    (call : ∀ name idempotent arguments, (∀ argument ∈ arguments, motive argument) →
      motive (.call name idempotent arguments))
    (tree : Tree) : motive tree :=
  match tree with
  | .integer value => integer value
  | .decimal value => decimal value
  | .var name => var name
  | .binary op left right =>
    binary op left right (induction integer decimal var binary negate call left)
      (induction integer decimal var binary negate call right)
  | .negate argument => negate argument (induction integer decimal var binary negate call argument)
  | .call name idempotent arguments =>
    call name idempotent arguments fun argument _ =>
      induction integer decimal var binary negate call argument

/-! ## The list of subtrees -/

mutual

/-- The tree and all trees below it. -/
def subtrees : Tree → List Tree
  | .integer value => [.integer value]
  | .decimal value => [.decimal value]
  | .var name => [.var name]
  | .binary op left right => .binary op left right :: (left.subtrees ++ right.subtrees)
  | .negate argument => .negate argument :: argument.subtrees
  | .call name idempotent arguments => .call name idempotent arguments :: allSubtrees arguments

/-- The trees of a list and all trees below them. -/
def allSubtrees : List Tree → List Tree
  | [] => []
  | tree :: trees => tree.subtrees ++ allSubtrees trees

end

theorem allSubtrees_eq (trees : List Tree) : allSubtrees trees = trees.flatMap subtrees := by
  induction trees with
  | nil => rfl
  | cons tree trees ih => rw [allSubtrees, ih, List.flatMap_cons]

theorem self_mem_subtrees (tree : Tree) : tree ∈ tree.subtrees := by
  cases tree <;> exact List.mem_cons_self

/-- What is below a node of a tree is below the tree. -/
theorem subtrees_subset {tree node : Tree} (h : node ∈ tree.subtrees) :
    node.subtrees ⊆ tree.subtrees := by
  induction tree with
  | integer _ | decimal _ | var _ =>
    cases List.mem_singleton.mp h
    exact List.Subset.refl _
  | binary op left right ihl ihr =>
    rw [subtrees, List.mem_cons, List.mem_append] at h
    rcases h with rfl | hleft | hright
    · exact List.Subset.refl _
    · exact List.subset_cons_of_subset _ (List.subset_append_of_subset_left _ (ihl hleft))
    · exact List.subset_cons_of_subset _ (List.subset_append_of_subset_right _ (ihr hright))
  | negate argument ih =>
    rw [subtrees, List.mem_cons] at h
    rcases h with rfl | hbelow
    · exact List.Subset.refl _
    · exact List.subset_cons_of_subset _ (ih hbelow)
  | call name idempotent arguments ih =>
    rw [subtrees, List.mem_cons, allSubtrees_eq, List.mem_flatMap] at h
    rcases h with rfl | ⟨argument, hmem, hbelow⟩
    · exact List.Subset.refl _
    · intro below hnode
      rw [subtrees, List.mem_cons, allSubtrees_eq, List.mem_flatMap]
      exact .inr ⟨argument, hmem, ih argument hmem hbelow hnode⟩

/-- In an idempotent tree every node is idempotent. -/
theorem isIdempotent_of_mem_subtrees {tree node : Tree} (h : tree.isIdempotent = true)
    (hmem : node ∈ tree.subtrees) : node.isIdempotent = true := by
  induction tree with
  | integer _ | decimal _ | var _ =>
    cases List.mem_singleton.mp hmem
    rfl
  | binary op left right ihl ihr =>
    rw [subtrees, List.mem_cons, List.mem_append] at hmem
    rcases hmem with rfl | hbelow
    · exact h
    · rw [isIdempotent, Bool.and_eq_true] at h
      exact hbelow.elim (ihl h.1) (ihr h.2)
  | negate argument ih =>
    rw [subtrees, List.mem_cons] at hmem
    rcases hmem with rfl | hbelow
    · exact h
    · exact ih h hbelow
  | call name idempotent arguments ih =>
    rw [subtrees, List.mem_cons, allSubtrees_eq, List.mem_flatMap] at hmem
    rcases hmem with rfl | ⟨argument, hargument, hbelow⟩
    · exact h
    · rw [isIdempotent, Bool.and_eq_true, allIdempotent_eq, List.all_eq_true] at h
      exact ih argument hargument (h.2 argument hargument) hbelow

/-! ## Names -/

/-- The name of a variable. -/
def variableName? : Tree → Option String
  | .var name => some name
  | _ => none

/-- The name of a called function. -/
def functionName? : Tree → Option String
  | .call name _ _ => some name
  | _ => none

/-- The names of the variables in a tree. -/
def variableNames (tree : Tree) : List String := tree.subtrees.filterMap variableName?

/-- The names of the functions called in a tree. -/
def functionNames (tree : Tree) : List String := tree.subtrees.filterMap functionName?

theorem mem_functionNames_iff {tree : Tree} {name : String} :
    name ∈ tree.functionNames ↔
      ∃ idempotent arguments, call name idempotent arguments ∈ tree.subtrees := by
  rw [functionNames, List.mem_filterMap]
  constructor
  · rintro ⟨node, hmem, hname⟩
    cases node with
    | call other idempotent arguments =>
      cases hname
      exact ⟨idempotent, arguments, hmem⟩
    | integer _ | decimal _ | var _ | binary _ _ _ | negate _ => cases hname
  · rintro ⟨idempotent, arguments, hmem⟩
    exact ⟨_, hmem, rfl⟩

@[simp] theorem variableNames_var (name : String) : (var name).variableNames = [name] := rfl

@[simp] theorem variableNames_binary (op : BinaryOp) (left right : Tree) :
    (binary op left right).variableNames = left.variableNames ++ right.variableNames := by
  rw [variableNames, subtrees, List.filterMap_cons_none rfl, List.filterMap_append]
  rfl

@[simp] theorem variableNames_negate (argument : Tree) :
    (negate argument).variableNames = argument.variableNames := rfl

@[simp] theorem variableNames_call (name : String) (idempotent : Bool) (arguments : List Tree) :
    (call name idempotent arguments).variableNames = arguments.flatMap variableNames := by
  rw [variableNames, subtrees, List.filterMap_cons_none rfl, allSubtrees_eq,
    List.filterMap_flatMap]
  rfl

@[simp] theorem functionNames_binary (op : BinaryOp) (left right : Tree) :
    (binary op left right).functionNames = left.functionNames ++ right.functionNames := by
  rw [functionNames, subtrees, List.filterMap_cons_none rfl, List.filterMap_append]
  rfl

@[simp] theorem functionNames_negate (argument : Tree) :
    (negate argument).functionNames = argument.functionNames := rfl

@[simp] theorem functionNames_call (name : String) (idempotent : Bool) (arguments : List Tree) :
    (call name idempotent arguments).functionNames
      = name :: arguments.flatMap functionNames := by
  have hname : functionName? (call name idempotent arguments) = some name := rfl
  rw [functionNames, subtrees, List.filterMap_cons_some hname, allSubtrees_eq,
    List.filterMap_flatMap]
  rfl

end Tree

end FormulaEngine
