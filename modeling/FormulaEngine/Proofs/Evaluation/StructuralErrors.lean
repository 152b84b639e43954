import FormulaEngine.Proofs.Assembly.Counts
import FormulaEngine.Proofs.Folding.Soundness

/-!
# Errors about the shape of a tree

Three errors of an evaluation say that a call should not be in the tree: its
function is not registered, or it has a number of arguments that the function
does not take.

A tree whose calls fit their functions never fails like that, as long as no
function fails like that when it is called as it wants to be
(`Function.KeepsToArity`).  This is said once for an evaluation under any lookup
(`isStructural_of_valueUnder`), and then for the folding pass and for both modes
of execution.  The pass keeps the calls fitting (`CallsFit.simplify`).
-/

namespace FormulaEngine

/-- Whether an error is about a call that should not be in the tree. -/
def EvaluationError.isStructural : EvaluationError → Bool
  | .functionNotDefined _ | .arityMismatch _ _ | .emptyArguments _ => true
  | .variableNotDefined _ | .zeroDivision | .overflow | .nonFiniteResult _ => false

/-- Called with a number of arguments that it takes, the function does not
complain about the number. -/
def Function.KeepsToArity (function : Function) : Prop :=
  ∀ arguments e, function.arity.Admits arguments.length → function.run arguments = .error e →
    e.isStructural = false

/-- All functions keep to their arity. -/
def KeepToArity (functions : Functions) : Prop :=
  ∀ entry ∈ functions.entries, entry.content.KeepsToArity

theorem KeepToArity.of_find? {functions : Functions} (h : KeepToArity functions) {name : String}
    {entry : Entry Function} (hfunction : functions.find? name = some entry) :
    entry.content.KeepsToArity := by
  rw [Registry.find?_eq] at hfunction
  split at hfunction
  · cases hfunction
  · exact h entry (List.mem_of_find?_eq_some hfunction)

/-- The only names without a value are those of variables. -/
def Lookup.MissesVariables (lookup : Lookup) : Prop :=
  ∀ name e, lookup name = .error e → e.isStructural = false

theorem Variables.missesVariables_get (vars : Variables) : vars.get.MissesVariables := by
  intro name e h
  rw [Variables.get] at h
  split at h <;> cases h
  rfl

theorem Program.missesVariables_lookUp (context : Context) :
    Lookup.MissesVariables (lookUp context) := by
  intro name e h
  rw [lookUp] at h
  split at h
  · cases h
  · split at h <;> cases h
    rfl

/-! ## Operators -/

theorem isStructural_of_orOverflow {result : Option Decimal} {e : EvaluationError}
    (h : orOverflow result = .error e) : e.isStructural = false := by
  cases result with
  | some value => cases h
  | none =>
    cases h
    rfl

theorem isStructural_of_apply {op : BinaryOp} {a b : Decimal} {e : EvaluationError}
    (h : op.apply a b = .error e) : e.isStructural = false := by
  cases op with
  | add | subtract | multiply => exact isStructural_of_orOverflow h
  | divide | modulo =>
    rw [BinaryOp.apply] at h
    split at h
    · cases h
      rfl
    · exact isStructural_of_orOverflow h
  | power =>
    rw [BinaryOp.apply, powerOf] at h
    split at h
    · exact isStructural_of_orOverflow h
    · cases h
      rfl
  | and | or | lessThan | lessOrEqual | greaterThan | greaterOrEqual | equal | notEqual => cases h

namespace Tree

variable {functions : Functions} {lookup : Lookup} {tree : Tree} {e : EvaluationError}

/-! ## Where an error comes from -/

theorem exists_error_of_valuesUnder {trees : List Tree}
    (h : valuesUnder functions lookup trees = .error e) :
    ∃ tree ∈ trees, tree.valueUnder functions lookup = .error e := by
  induction trees with
  | nil => cases h
  | cons tree trees ih =>
    rw [valuesUnder] at h
    split at h
    · rename_i hfirst
      cases h
      exact ⟨tree, List.mem_cons_self, hfirst⟩
    · split at h
      · rename_i hrest
        cases h
        obtain ⟨other, hmem, hother⟩ := ih hrest
        exact ⟨other, List.mem_cons_of_mem _ hmem, hother⟩
      · cases h

/-- An operator fails if an operand does, or by itself. -/
theorem error_of_binary {op : BinaryOp} {left right : Tree}
    (h : (binary op left right).valueUnder functions lookup = .error e) :
    left.valueUnder functions lookup = .error e ∨ right.valueUnder functions lookup = .error e ∨
      ∃ a b, op.apply a b = .error e := by
  rw [valueUnder] at h
  split at h
  · rename_i hleft
    cases h
    exact .inl hleft
  · split at h
    · rename_i hright
      cases h
      exact .inr (.inl hright)
    · exact .inr (.inr ⟨_, _, h⟩)

/-- A call of a registered function fails if an argument does, or by itself. -/
theorem error_of_call {name : String} {entry : Entry Function} {idempotent : Bool}
    {arguments : List Tree} (hfunction : functions.find? name = some entry)
    (h : (call name idempotent arguments).valueUnder functions lookup = .error e) :
    (∃ argument ∈ arguments, argument.valueUnder functions lookup = .error e) ∨
      ∃ values, values.length = arguments.length ∧ entry.content.run values = .error e := by
  rw [valueUnder, hfunction] at h
  dsimp only at h
  split at h
  · rename_i harguments
    cases h
    exact .inl (exists_error_of_valuesUnder harguments)
  · rename_i values harguments
    exact .inr ⟨values, (valuesUnder_eq_ok_iff.mp harguments).length_eq.symm, h⟩

/-! ## Values -/

/-- A tree whose calls fit their functions does not fail because of its shape. -/
theorem isStructural_of_valueUnder (hfunctions : KeepToArity functions)
    (hlookup : lookup.MissesVariables) (hfit : tree.CallsFit functions)
    (h : tree.valueUnder functions lookup = .error e) : e.isStructural = false := by
  induction tree with
  | integer _ | decimal _ => cases h
  | var name => exact hlookup name e h
  | binary op left right ihl ihr =>
    obtain ⟨hl, hr⟩ := callsFit_binary_iff.mp hfit
    rcases error_of_binary h with hleft | hright | ⟨a, b, happly⟩
    · exact ihl hl hleft
    · exact ihr hr hright
    · exact isStructural_of_apply happly
  | negate argument ih =>
    rw [valueUnder] at h
    split at h
    · rename_i hargument
      cases h
      exact ih hfit hargument
    · cases h
  | call name idempotent arguments ih =>
    obtain ⟨⟨entry, hentry, hadmits⟩, hfits⟩ := callsFit_call_iff.mp hfit
    -- The function is run on as many values as the call has arguments.
    rcases error_of_call hentry h with ⟨argument, hmem, hargument⟩ | ⟨values, hlength, hrun⟩
    · exact ih argument hmem (hfits argument hmem) hargument
    · exact hfunctions.of_find? hentry values e (hlength ▸ hadmits) hrun

/-! ## The folding pass -/

/-- The pass keeps the names of the calls and the numbers of their arguments. -/
theorem CallsFit.simplify {folding : Functions} {simplified : Tree}
    (h : tree.simplify folding = .ok simplified) :
    tree.CallsFit functions → simplified.CallsFit functions := by
  refine simplify_induction (motive := fun tree simplified =>
    tree.CallsFit functions → simplified.CallsFit functions) ?_ ?_ ?_ ?_ ?_ h
  · intro tree value _ _ _
    exact List.forall_mem_nil _
  · intro tree _ _ hfit
    exact hfit
  · intro left right left' right' _ _ _ _ _ _ _
    exact List.forall_mem_nil _
  · intro op left right left' right' _ _ _ _ _ ihl ihr hfit
    rw [callsFit_binary_iff] at hfit ⊢
    exact ⟨ihl hfit.1, ihr hfit.2⟩
  · intro name idempotent arguments arguments' _ hsimplify ih hfit
    obtain ⟨hcall, hfits⟩ := callsFit_call_iff.mp hfit
    refine callsFit_call_iff.mpr ⟨hsimplify.length_eq ▸ hcall, ?_⟩
    exact forall_mem_of_forall₂ (forall₂_of_forall_mem hfits ih).flip

theorem exists_error_of_simplifyAll {trees : List Tree}
    (h : simplifyAll functions trees = .error e) :
    ∃ tree ∈ trees, tree.simplify functions = .error e := by
  induction trees with
  | nil => cases h
  | cons tree trees ih =>
    rw [simplifyAll] at h
    split at h
    · rename_i hfirst
      cases h
      exact ⟨tree, List.mem_cons_self, hfirst⟩
    · split at h
      · rename_i hrest
        cases h
        obtain ⟨other, hmem, hother⟩ := ih hrest
        exact ⟨other, List.mem_cons_of_mem _ hmem, hother⟩
      · cases h

/-- The pass fails on a foldable tree with the error of its evaluation. -/
theorem evaluate_of_simplify_error (hfold : tree.isFoldable = true)
    (h : tree.simplify functions = .error e) : tree.evaluate functions .empty = .error e := by
  rw [simplify.eq_def, if_pos hfold] at h
  split at h
  · rename_i hvalue
    cases h
    exact hvalue
  · cases h

/-- On another operator it fails if it does so on an operand. -/
theorem error_of_simplify_binary {op : BinaryOp} {left right : Tree}
    (hfold : (binary op left right).isFoldable = false)
    (h : (binary op left right).simplify functions = .error e) :
    left.simplify functions = .error e ∨ right.simplify functions = .error e := by
  rw [simplify, if_neg (by simp [hfold])] at h
  split at h
  · split at h
    · rename_i hleft
      cases h
      exact .inl hleft
    · split at h
      · rename_i hright
        cases h
        exact .inr hright
      · cases h
  · cases h

/-- On another call it fails if it does so on an argument. -/
theorem error_of_simplify_call {name : String} {idempotent : Bool} {arguments : List Tree}
    (hfold : (call name idempotent arguments).isFoldable = false)
    (h : (call name idempotent arguments).simplify functions = .error e) :
    ∃ argument ∈ arguments, argument.simplify functions = .error e := by
  rw [simplify, if_neg (by simp [hfold])] at h
  split at h
  · rename_i harguments
    cases h
    exact exists_error_of_simplifyAll harguments
  · cases h

theorem isStructural_of_foldable (hfunctions : KeepToArity functions)
    (hfit : tree.CallsFit functions) (hfold : tree.isFoldable = true)
    (h : tree.simplify functions = .error e) : e.isStructural = false := by
  have hvalue := evaluate_of_simplify_error hfold h
  rw [evaluate_eq_valueUnder] at hvalue
  exact isStructural_of_valueUnder hfunctions (Variables.missesVariables_get _) hfit hvalue

/-- The pass does not fail on such a tree because of its shape. -/
theorem isStructural_of_simplify (hfunctions : KeepToArity functions)
    (hfit : tree.CallsFit functions) (h : tree.simplify functions = .error e) :
    e.isStructural = false := by
  induction tree with
  | integer _ | decimal _ | var _ =>
    rw [simplify_of_kept functions rfl rfl] at h
    cases h
  | binary op left right ihl ihr =>
    cases hfold : (binary op left right).isFoldable with
    | true => exact isStructural_of_foldable hfunctions hfit hfold h
    | false =>
      obtain ⟨hl, hr⟩ := callsFit_binary_iff.mp hfit
      rcases error_of_simplify_binary hfold h with hleft | hright
      · exact ihl hl hleft
      · exact ihr hr hright
  | negate argument ih =>
    cases hfold : (negate argument).isFoldable with
    | true => exact isStructural_of_foldable hfunctions hfit hfold h
    | false =>
      rw [simplify_of_kept functions hfold rfl] at h
      cases h
  | call name idempotent arguments ih =>
    cases hfold : (call name idempotent arguments).isFoldable with
    | true => exact isStructural_of_foldable hfunctions hfit hfold h
    | false =>
      obtain ⟨_, hfits⟩ := callsFit_call_iff.mp hfit
      obtain ⟨argument, hmem, hargument⟩ := error_of_simplify_call hfold h
      exact ih argument hmem (hfits argument hmem) hargument

/-! ## Executions -/

theorem map_fst_calls (tree : Tree) : tree.calls.map Prod.fst = tree.functionNames := by
  rw [calls, functionNames, List.map_filterMap]
  congr 1
  funext node
  cases node <;> rfl

/-- The names that such a tree calls are registered. -/
theorem CallsFit.unknownFunction?_eq_none (hfit : tree.CallsFit functions) :
    tree.unknownFunction? functions = none := by
  rw [unknownFunction?_eq_none_iff, ← map_fst_calls]
  intro name hmem
  obtain ⟨call, hcall, rfl⟩ := List.mem_map.mp hmem
  obtain ⟨entry, hentry, _⟩ := hfit call hcall
  rw [hentry]
  rfl

/-- Neither mode fails on such a tree because of its shape. -/
theorem isStructural_of_execute (hfunctions : KeepToArity functions)
    (hfit : tree.CallsFit functions) {mode : ExecutionMode} {caseSensitive : Bool}
    {constants : Constants} {vars : Variables}
    (h : mode.execute caseSensitive tree functions constants vars = .error e) :
    e.isStructural = false := by
  cases mode with
  | interpreted =>
    rw [execute_interpreted] at h
    exact isStructural_of_valueUnder hfunctions (Variables.missesVariables_get _) hfit h
  | compiled =>
    rw [execute_compiled, hfit.unknownFunction?_eq_none] at h
    exact isStructural_of_valueUnder hfunctions (Program.missesVariables_lookUp _) hfit h

end Tree

end FormulaEngine
