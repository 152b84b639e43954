import FormulaEngine.Engine
import FormulaEngine.Proofs.Tree.Subtrees

/-!
# Values under a lookup

Two evaluators give a tree its value.  They differ in where they look a name
up: one knows the variables only, the other falls back on the constants.
`Tree.valueUnder` is the evaluation with the lookup left open, and
`evaluate_eq_valueUnder` says that the first evaluator is the case of the
variables.

* `valueUnder_congr`: only the names that occur in a tree matter.
* `valueUnder_of_closed`: a tree without variables has one value, whatever
  the lookup.
* `valueUnder_mono`: a value is kept by every lookup that knows more.
* `find?_withConstants`: the variables together with the constants are the
  lookup with the fallback, said as variables.
-/

namespace FormulaEngine

/-- What gives the names of a formula their values. -/
abbrev Lookup := String → Except EvaluationError Decimal

namespace Variables

/-- The variables as a lookup. -/
def get (vars : Variables) : Lookup := fun name =>
  match vars.find? name with
  | some value => .ok value
  | none => .error (.variableNotDefined name)

theorem lookup_insertBinding (name : String) (value : Decimal)
    (bindings : List (String × Decimal)) (other : String) :
    (insertBinding name value bindings).lookup other =
      if other = name then some value else bindings.lookup other := by
  induction bindings with
  | nil =>
    by_cases h : other = name
    · simp [insertBinding, h]
    · have hb : (other == name) = false := beq_false_of_ne h
      simp [insertBinding, List.lookup_cons, hb, h]
  | cons binding bindings ih =>
    obtain ⟨key, old⟩ := binding
    rw [insertBinding]
    by_cases hk : key = name
    · by_cases h : other = name
      · simp [hk, h]
      · have hb : (other == name) = false := beq_false_of_ne h
        simp [hk, h, hb, List.lookup_cons]
    · rw [if_neg (by simpa using hk), List.lookup_cons, List.lookup_cons, ih]
      by_cases h : other = name
      · have hkey : (name == key) = false := beq_false_of_ne fun h => hk h.symm
        simp [h, hkey]
      · simp [h]

theorem find?_insert (vars : Variables) (name : String) (value : Decimal) (other : String) :
    (vars.insert name value).find? other =
      if other = name then some value else vars.find? other :=
  lookup_insertBinding name value vars.bindings other

/-- A new binding counts only for a name that had none. -/
theorem find?_insertNew (vars : Variables) (name : String) (value : Decimal) (other : String) :
    (vars.insertNew name value).find? other =
      (vars.find? other).or (if other = name then some value else none) := by
  rw [insertNew]
  split
  · rename_i hbound
    by_cases h : other = name
    · rw [h, Option.or_of_isSome hbound]
    · rw [if_neg h, Option.or_none]
  · rename_i hfree
    rw [find?_insert]
    by_cases h : other = name
    · have hnone : vars.find? name = none := by simpa using hfree
      rw [h, hnone, if_pos rfl, Option.none_or]
    · rw [if_neg h, if_neg h, Option.or_none]

end Variables

/-- The variables first, then the constants. -/
theorem find?_withConstants (constants : Constants) (vars : Variables) (name : String) :
    (Engine.withConstants constants vars).find? name =
      (vars.find? name).or ((constants.entry? name).map Entry.content) := by
  rw [Engine.withConstants, Registry.entry?]
  generalize constants.entries = entries
  induction entries generalizing vars with
  | nil => simp
  | cons entry entries ih =>
    rw [List.foldl_cons, ih, Variables.find?_insertNew, Option.or_assoc, List.find?_cons]
    by_cases h : name = entry.name
    · simp [h]
    · have hne : (entry.name == name) = false := by simpa using fun h' => h h'.symm
      rw [if_neg h, hne, Option.none_or]

namespace Tree

/-! ## Evaluation with an open lookup -/

mutual

/-- The value of a tree under a lookup for its variables. -/
def valueUnder (functions : Functions) (lookup : Lookup) :
    Tree → Except EvaluationError Decimal
  | .integer value => .ok (.ofInt64 value)
  | .decimal value => .ok value
  | .var name => lookup name
  | .binary op left right =>
    match valueUnder functions lookup left with
    | .error e => .error e
    | .ok a =>
      match valueUnder functions lookup right with
      | .error e => .error e
      | .ok b => op.apply a b
  | .negate argument =>
    match valueUnder functions lookup argument with
    | .error e => .error e
    | .ok a => .ok a.negate
  | .call name _ arguments =>
    match functions.find? name with
    | none => .error (.functionNotDefined name)
    | some entry =>
      match valuesUnder functions lookup arguments with
      | .error e => .error e
      | .ok values => entry.content.run values

/-- The values of a list of trees under a lookup. -/
def valuesUnder (functions : Functions) (lookup : Lookup) :
    List Tree → Except EvaluationError (List Decimal)
  | [] => .ok []
  | tree :: trees =>
    match valueUnder functions lookup tree with
    | .error e => .error e
    | .ok value =>
      match valuesUnder functions lookup trees with
      | .error e => .error e
      | .ok values => .ok (value :: values)

end

mutual

/-- The evaluator looks names up in the variables. -/
theorem evaluate_eq_valueUnder (functions : Functions) (vars : Variables) :
    ∀ tree : Tree, tree.evaluate functions vars = tree.valueUnder functions vars.get
  | .integer _ => rfl
  | .decimal _ => rfl
  | .var _ => rfl
  | .binary op left right => by
    rewrite [evaluate, valueUnder, evaluate_eq_valueUnder functions vars left,
      evaluate_eq_valueUnder functions vars right]
    rfl
  | .negate argument => by
    rewrite [evaluate, valueUnder, evaluate_eq_valueUnder functions vars argument]
    rfl
  | .call name _ arguments => by
    rewrite [evaluate, valueUnder, evaluateAll_eq_valuesUnder functions vars arguments]
    rfl

theorem evaluateAll_eq_valuesUnder (functions : Functions) (vars : Variables) :
    ∀ trees : List Tree,
      evaluateAll functions vars trees = valuesUnder functions vars.get trees
  | [] => rfl
  | tree :: trees => by
    rewrite [evaluateAll, valuesUnder, evaluate_eq_valueUnder functions vars tree,
      evaluateAll_eq_valuesUnder functions vars trees]
    rfl

end

/-! ## Lists of values -/

/-- Trees with the same results one by one have the same results together. -/
theorem valuesUnder_congr {functions functions' : Functions} {lookup lookup' : Lookup}
    {trees trees' : List Tree}
    (h : List.Forall₂ (fun tree tree' =>
      tree.valueUnder functions lookup = tree'.valueUnder functions' lookup') trees trees') :
    valuesUnder functions lookup trees = valuesUnder functions' lookup' trees' := by
  induction h with
  | nil => rfl
  | cons hhead _ ih => rw [valuesUnder, valuesUnder, hhead, ih]

/-- A list of trees has values exactly if every member has one. -/
theorem valuesUnder_eq_ok_iff {functions : Functions} {lookup : Lookup} {trees : List Tree}
    {values : List Decimal} :
    valuesUnder functions lookup trees = .ok values ↔
      List.Forall₂ (fun tree value => tree.valueUnder functions lookup = .ok value)
        trees values := by
  induction trees generalizing values with
  | nil => simp [valuesUnder, eq_comm]
  | cons tree trees ih =>
    rw [valuesUnder, List.forall₂_cons_left_iff]
    constructor
    · intro h
      split at h
      · cases h
      · rename_i value hvalue
        split at h
        · cases h
        · rename_i rest hrest
          cases h
          exact ⟨value, rest, hvalue, ih.mp hrest, rfl⟩
    · rintro ⟨value, rest, hvalue, hrest, rfl⟩
      rw [hvalue, ih.mpr hrest]

/-- Trees that keep the values of others one by one keep them together. -/
theorem valuesUnder_of_forall₂ {functions functions' : Functions} {lookup lookup' : Lookup}
    {trees trees' : List Tree}
    (h : List.Forall₂ (fun tree tree' => ∀ value, tree.valueUnder functions lookup = .ok value →
      tree'.valueUnder functions' lookup' = .ok value) trees trees') (values : List Decimal)
    (hvalues : valuesUnder functions lookup trees = .ok values) :
    valuesUnder functions' lookup' trees' = .ok values := by
  rw [valuesUnder_eq_ok_iff] at hvalues ⊢
  induction h generalizing values with
  | nil =>
    cases hvalues
    exact .nil
  | cons hhead _ ih =>
    obtain ⟨value, rest, hvalue, hrest, rfl⟩ := List.forall₂_cons_left_iff.mp hvalues
    exact .cons (hhead value hvalue) (ih rest hrest)

/-- Every member of a list with values has one. -/
theorem exists_value_of_mem {functions : Functions} {lookup : Lookup} {trees : List Tree}
    {values : List Decimal} (h : valuesUnder functions lookup trees = .ok values) {tree : Tree}
    (hmem : tree ∈ trees) : ∃ value, tree.valueUnder functions lookup = .ok value := by
  induction valuesUnder_eq_ok_iff.mp h with
  | nil => cases hmem
  | cons hhead htail ih =>
    rcases List.mem_cons.mp hmem with rfl | hrest
    · exact ⟨_, hhead⟩
    · exact ih (valuesUnder_eq_ok_iff.mpr htail) hrest

/-! ## Values and errors of a node -/

/-- An operator has a value if its operands have values that it accepts. -/
theorem valueUnder_binary_eq_ok_iff {functions : Functions} {lookup : Lookup} {op : BinaryOp}
    {left right : Tree} {value : Decimal} :
    (binary op left right).valueUnder functions lookup = .ok value ↔
      ∃ a b, left.valueUnder functions lookup = .ok a ∧
        right.valueUnder functions lookup = .ok b ∧ op.apply a b = .ok value := by
  rw [valueUnder]
  constructor
  · intro h
    split at h
    · cases h
    · rename_i a ha
      split at h
      · cases h
      · rename_i b hb
        exact ⟨a, b, ha, hb, h⟩
  · rintro ⟨a, b, ha, hb, h⟩
    rw [ha, hb]
    exact h

/-- The negative of a value. -/
theorem valueUnder_negate_eq_ok_iff {functions : Functions} {lookup : Lookup} {argument : Tree}
    {value : Decimal} :
    (negate argument).valueUnder functions lookup = .ok value ↔
      ∃ a, argument.valueUnder functions lookup = .ok a ∧ a.negate = value := by
  rw [valueUnder]
  constructor
  · intro h
    split at h
    · cases h
    · rename_i a ha
      cases h
      exact ⟨a, ha, rfl⟩
  · rintro ⟨a, ha, rfl⟩
    rw [ha]

/-- A call has a value if its function is registered and accepts the values
of the arguments. -/
theorem valueUnder_call_eq_ok_iff {functions : Functions} {lookup : Lookup} {name : String}
    {idempotent : Bool} {arguments : List Tree} {value : Decimal} :
    (call name idempotent arguments).valueUnder functions lookup = .ok value ↔
      ∃ entry values, functions.find? name = some entry ∧
        valuesUnder functions lookup arguments = .ok values ∧
        entry.content.run values = .ok value := by
  rw [valueUnder]
  constructor
  · intro h
    split at h
    · cases h
    · rename_i entry hentry
      split at h
      · cases h
      · rename_i values hvalues
        exact ⟨entry, values, hentry, hvalues, h⟩
  · rintro ⟨entry, values, hentry, hvalues, h⟩
    rw [hentry, hvalues]
    exact h

/-! ## Which names matter -/

/-- Lookups that agree on the variables of a tree give it the same result. -/
theorem valueUnder_congr (functions : Functions) {lookup lookup' : Lookup} (tree : Tree)
    (h : ∀ name ∈ tree.variableNames, lookup name = lookup' name) :
    tree.valueUnder functions lookup = tree.valueUnder functions lookup' := by
  induction tree with
  | integer _ | decimal _ => rfl
  | var name => exact h name (by simp)
  | binary op left right ihl ihr =>
    rw [valueUnder, valueUnder, ihl fun name hn => h name (by simp [hn]),
      ihr fun name hn => h name (by simp [hn])]
  | negate argument ih => rw [valueUnder, valueUnder, ih h]
  | call name idempotent arguments ih =>
    have harguments : valuesUnder functions lookup arguments
        = valuesUnder functions lookup' arguments := by
      refine valuesUnder_congr (List.forall₂_same.mpr ?_)
      intro argument hmem
      exact ih argument hmem fun name hn =>
        h name (by simpa using ⟨argument, hmem, hn⟩)
    rw [valueUnder, valueUnder, harguments]

/-- A tree that depends on no variables contains none. -/
theorem variableNames_of_closed {tree : Tree} (h : tree.dependsOnVariables = false) :
    tree.variableNames = [] := by
  induction tree with
  | integer _ | decimal _ => rfl
  | var name => simp [dependsOnVariables] at h
  | binary op left right ihl ihr =>
    rw [dependsOnVariables, Bool.or_eq_false_iff] at h
    rw [variableNames_binary, ihl h.1, ihr h.2]
    rfl
  | negate argument ih => exact ih h
  | call name idempotent arguments ih =>
    rw [dependsOnVariables, anyDependsOnVariables_eq, List.any_eq_false] at h
    rw [variableNames_call, List.flatMap_eq_nil_iff]
    intro argument hmem
    exact ih argument hmem (Bool.not_eq_true _ ▸ h argument hmem)

/-- A tree without variables has the same result under every lookup. -/
theorem valueUnder_of_closed (functions : Functions) {tree : Tree}
    (h : tree.dependsOnVariables = false) (lookup lookup' : Lookup) :
    tree.valueUnder functions lookup = tree.valueUnder functions lookup' := by
  refine valueUnder_congr functions tree ?_
  rw [variableNames_of_closed h]
  intro name hmem
  cases hmem

/-- A lookup that knows more keeps every value. -/
theorem valueUnder_mono (functions : Functions) {lookup lookup' : Lookup}
    (h : ∀ name value, lookup name = .ok value → lookup' name = .ok value) {tree : Tree} :
    ∀ value, tree.valueUnder functions lookup = .ok value →
      tree.valueUnder functions lookup' = .ok value := by
  intro value hvalue
  induction tree generalizing value with
  | integer _ | decimal _ => exact hvalue
  | var name => exact h name value hvalue
  | binary op left right ihl ihr =>
    obtain ⟨a, b, ha, hb, happly⟩ := valueUnder_binary_eq_ok_iff.mp hvalue
    exact valueUnder_binary_eq_ok_iff.mpr ⟨a, b, ihl a ha, ihr b hb, happly⟩
  | negate argument ih =>
    obtain ⟨a, ha, rfl⟩ := valueUnder_negate_eq_ok_iff.mp hvalue
    exact valueUnder_negate_eq_ok_iff.mpr ⟨a, ih a ha, rfl⟩
  | call name idempotent arguments ih =>
    obtain ⟨entry, values, hentry, hvalues, hrun⟩ := valueUnder_call_eq_ok_iff.mp hvalue
    exact valueUnder_call_eq_ok_iff.mpr ⟨entry, values, hentry,
      valuesUnder_of_forall₂ (List.forall₂_same.mpr ih) values hvalues, hrun⟩

end Tree

end FormulaEngine
