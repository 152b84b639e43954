import FormulaEngine.Proofs.Assembly.Steps
import FormulaEngine.Proofs.Folding.Pass
import FormulaEngine.Proofs.Registry.History

/-!
# The names in a formula

The assembly writes the variables of a tree in their canonical form, and calls
registered functions only, by the names under which they are registered.
`Tree.Resolved` says this of a tree.  Every assembled tree has it
(`resolved_of_ofTokens`), and the folding pass keeps it, because it only ever
takes names out of a tree (`Resolved.simplify`).
-/

namespace FormulaEngine

namespace Tree

/-- The variables have their canonical names, and the functions are
registered. -/
structure Resolved (functions : Functions) (caseSensitive : Bool) (tree : Tree) : Prop where
  canonical : ∀ name ∈ tree.variableNames, Text.canonical caseSensitive name = name
  registered : ∀ name ∈ tree.functionNames, (functions.find? name).isSome

theorem inherited_resolved (scope : Scope) :
    Assembly.Inherited scope (Resolved scope.functions scope.caseSensitive) := by
  constructor
  case operand =>
    intro token tree h
    cases h with
    | integer _ _ | decimal _ _ | constantName _ _ _ => exact ⟨nofun, nofun⟩
    | variableName range _ _ =>
      refine ⟨fun name hname => ?_, nofun⟩
      rw [variableNames_var, List.mem_singleton] at hname
      rw [hname, Text.canonical_canonical]
  case negate => exact fun argument h => ⟨h.canonical, h.registered⟩
  case binary =>
    intro op left right hleft hright
    constructor
    · rw [variableNames_binary, List.forall_mem_append]
      exact ⟨hleft.canonical, hright.canonical⟩
    · rw [functionNames_binary, List.forall_mem_append]
      exact ⟨hleft.registered, hright.registered⟩
  case call =>
    intro name entry arguments hfunction harguments
    constructor
    · rw [variableNames_call]
      intro other hother
      obtain ⟨argument, hmem, hname⟩ := List.mem_flatMap.mp hother
      exact (harguments argument hmem).canonical other hname
    · rw [functionNames_call, List.forall_mem_cons]
      refine ⟨Option.isSome_of_eq_some (Registry.find?_name hfunction), fun other hother => ?_⟩
      obtain ⟨argument, hmem, hname⟩ := List.mem_flatMap.mp hother
      exact (harguments argument hmem).registered other hname

theorem resolved_of_ofTokens {scope : Scope} {tokens : List Token} {tree : Tree}
    (h : ofTokens scope tokens = .ok tree) : tree.Resolved scope.functions scope.caseSensitive :=
  (inherited_resolved scope).of_ofTokens h

/-! ## Folding -/

theorem mem_flatMap_of_forall₂ {names : Tree → List String} {trees trees' : List Tree}
    (h : List.Forall₂ (fun tree tree' => ∀ name ∈ names tree', name ∈ names tree) trees trees') :
    ∀ name ∈ trees'.flatMap names, name ∈ trees.flatMap names := by
  induction h with
  | nil => exact fun _ hname => hname
  | cons hhead _ ih =>
    intro name hname
    rw [List.flatMap_cons, List.mem_append] at hname ⊢
    exact hname.imp (hhead name) (ih name)

/-- A pass brings no name into a tree. -/
theorem names_simplify {functions : Functions} {tree tree' : Tree}
    (h : simplify functions tree = .ok tree') :
    (∀ name ∈ tree'.variableNames, name ∈ tree.variableNames) ∧
      ∀ name ∈ tree'.functionNames, name ∈ tree.functionNames := by
  refine simplify_induction (motive := fun tree tree' =>
    (∀ name ∈ tree'.variableNames, name ∈ tree.variableNames) ∧
      ∀ name ∈ tree'.functionNames, name ∈ tree.functionNames) ?_ ?_ ?_ ?_ ?_ h
  · intro tree value _ _
    exact ⟨nofun, nofun⟩
  · intro tree _ _
    exact ⟨fun _ hname => hname, fun _ hname => hname⟩
  · intro left right left' right' _ _ _ _ _ _
    exact ⟨nofun, nofun⟩
  · intro op left right left' right' _ _ _ _ _ ihl ihr
    simp only [variableNames_binary, functionNames_binary, List.mem_append]
    exact ⟨fun name hname => hname.imp (ihl.1 name) (ihr.1 name),
      fun name hname => hname.imp (ihl.2 name) (ihr.2 name)⟩
  · intro name idempotent arguments arguments' _ _ ih
    simp only [variableNames_call, functionNames_call, List.mem_cons]
    refine ⟨mem_flatMap_of_forall₂ (ih.imp fun _ _ h => h.1), fun other hother => ?_⟩
    exact hother.imp_right (mem_flatMap_of_forall₂ (ih.imp fun _ _ h => h.2) other)

theorem Resolved.simplify {functions : Functions} {caseSensitive : Bool} {tree tree' : Tree}
    (hresolved : tree.Resolved functions caseSensitive)
    (h : Tree.simplify functions tree = .ok tree') : tree'.Resolved functions caseSensitive := by
  obtain ⟨hvariables, hfunctions⟩ := names_simplify h
  exact ⟨fun name hname => hresolved.canonical name (hvariables name hname),
    fun name hname => hresolved.registered name (hfunctions name hname)⟩

end Tree

end FormulaEngine
