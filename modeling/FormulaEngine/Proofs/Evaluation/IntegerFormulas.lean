import FormulaEngine.Proofs.Decimal.Integers
import FormulaEngine.Proofs.Program.Agreement

/-!
# Formulas of integer type

A tree of integer type is made of integer literals, sums, differences,
products, negatives, comparisons and logical operators.  It has a value in
the unbounded integers, and that is what both executors give, as long as the
value of every node fits into a decimal.  Otherwise they give an overflow:
all operands are evaluated, so a node that does not fit is always met.

* `BinaryOp.onIntegers?` and `Tree.integerValue?` are the unbounded
  arithmetic.  `Tree.StaysInRange` says that every node fits.
* `BinaryOp.isExact_apply` is one operator, on operands that are integers,
  and `Tree.isExact_valueUnder` is the whole tree, by induction.
* `Tree.exists_integerValue?`, `Tree.functionNames_of_integer` and
  `Tree.valueUnder_of_integer` are what the type rules out: operators that
  leave the integers, calls, and variables.
* `integer_formulas_are_exact` is the statement for evaluations in both modes
  and for formulas that were built before.
-/

namespace FormulaEngine

/-! ## Unbounded arithmetic -/

/-- The result of an operator on integers.  Comparisons and logical operators
give one or zero.  Quotients, remainders and powers are no integers. -/
def BinaryOp.onIntegers? (op : BinaryOp) (m n : Int) : Option Int :=
  match op with
  | .add => some (m + n)
  | .subtract => some (m - n)
  | .multiply => some (m * n)
  | .divide | .modulo | .power => none
  | .and => some (if m ≠ 0 ∧ n ≠ 0 then 1 else 0)
  | .or => some (if m ≠ 0 ∨ n ≠ 0 then 1 else 0)
  | .lessThan => some (if m < n then 1 else 0)
  | .lessOrEqual => some (if m ≤ n then 1 else 0)
  | .greaterThan => some (if n < m then 1 else 0)
  | .greaterOrEqual => some (if n ≤ m then 1 else 0)
  | .equal => some (if m = n then 1 else 0)
  | .notEqual => some (if m ≠ n then 1 else 0)

namespace Tree

/-- The value of a tree in the integers, without bounds. -/
def integerValue? : Tree → Option Int
  | .integer value => some value.toInt
  | .binary op left right =>
    match left.integerValue?, right.integerValue? with
    | some m, some n => op.onIntegers? m n
    | _, _ => none
  | .negate argument =>
    match argument.integerValue? with
    | some n => some (-n)
    | none => none
  | .decimal _ | .var _ | .call _ _ _ => none

/-- The node has a value in the integers, and it fits into a decimal. -/
def Fits (node : Tree) : Prop := ∃ n ∈ node.integerValue?, Decimal.Fits n

/-- Every node of the tree fits. -/
def StaysInRange (tree : Tree) : Prop := ∀ node ∈ tree.subtrees, node.Fits

instance (node : Tree) : Decidable node.Fits :=
  inferInstanceAs (Decidable (∃ n ∈ node.integerValue?, Decimal.Fits n))

instance (tree : Tree) : Decidable tree.StaysInRange :=
  inferInstanceAs (Decidable (∀ node ∈ tree.subtrees, node.Fits))

theorem fits_iff {node : Tree} {n : Int} (h : node.integerValue? = some n) :
    node.Fits ↔ Decimal.Fits n := by
  simp [Fits, h]

theorem staysInRange_integer (value : Int64) : (integer value).StaysInRange := by
  intro node hnode
  cases List.mem_singleton.mp hnode
  exact ⟨_, rfl, (Decimal.isInteger_ofInt64 value).fits⟩

theorem staysInRange_binary_iff {op : BinaryOp} {left right : Tree} :
    (binary op left right).StaysInRange ↔
      (binary op left right).Fits ∧ left.StaysInRange ∧ right.StaysInRange := by
  rw [StaysInRange, subtrees, List.forall_mem_cons, List.forall_mem_append]
  rfl

theorem StaysInRange.fits {tree : Tree} (h : tree.StaysInRange) : tree.Fits :=
  h tree tree.self_mem_subtrees

/-- The range is the same on both sides of zero. -/
theorem staysInRange_negate_iff {argument : Tree} :
    (negate argument).StaysInRange ↔ argument.StaysInRange := by
  rw [StaysInRange, subtrees, List.forall_mem_cons]
  refine ⟨And.right, fun h => ⟨?_, h⟩⟩
  obtain ⟨n, hn, hfits⟩ := StaysInRange.fits h
  exact ⟨-n, by rw [integerValue?, Option.mem_def.mp hn]; rfl, Decimal.fits_neg_iff.mpr hfits⟩

end Tree

/-! ## Results -/

/-- A result that is the integer `n` if everything is in range, and an
overflow if something is not. -/
inductive IsExact (inRange : Prop) (n : Int) : Except EvaluationError Decimal → Prop where
  | value {d : Decimal} (h : inRange) (hd : d.IsInteger n) : IsExact inRange n (.ok d)
  | overflow (h : ¬inRange) : IsExact inRange n (.error .overflow)

theorem Decimal.IsChecked.isExact {n : Int} {result : Option Decimal}
    (h : Decimal.IsChecked n result) : IsExact (Decimal.Fits n) n (orOverflow result) := by
  cases h with
  | exact hd => exact .value hd.fits hd
  | exceeds h => exact .overflow h

theorem isExact_ofBool (p : Prop) [Decidable p] :
    IsExact (Decimal.Fits (if p then 1 else 0)) (if p then 1 else 0)
      (.ok (.ofBool (decide p))) :=
  .value (Decimal.isInteger_ofBool p).fits (Decimal.isInteger_ofBool p)

namespace BinaryOp

/-- Operators of integer type have operands of integer type. -/
theorem resultType_eq_integer {op : BinaryOp} {left right : DataType}
    (h : op.resultType left right = .integer) :
    left = .integer ∧ right = .integer ∧ op.resultType .integer .integer = .integer := by
  cases op <;> cases left <;> cases right <;> first | exact ⟨rfl, rfl, rfl⟩ | cases h

/-- An operator of integer type stays in the integers. -/
theorem exists_onIntegers? {op : BinaryOp} (hop : op.resultType .integer .integer = .integer)
    (m n : Int) : ∃ value, op.onIntegers? m n = some value := by
  cases op with
  | divide | modulo | power => cases hop
  | _ => exact ⟨_, rfl⟩

/-- An operator on integers gives its exact result if it fits. -/
theorem isExact_apply {op : BinaryOp} {m n value : Int} (h : op.onIntegers? m n = some value)
    {a b : Decimal} (ha : a.IsInteger m) (hb : b.IsInteger n) :
    IsExact (Decimal.Fits value) value (op.apply a b) := by
  cases op with
  | divide | modulo | power => cases h
  | add =>
    cases h
    exact (Decimal.isChecked_add? ha hb).isExact
  | subtract =>
    cases h
    exact (Decimal.isChecked_subtract? ha hb).isExact
  | multiply =>
    cases h
    exact (Decimal.isChecked_multiply? ha hb).isExact
  | and =>
    cases h
    rw [apply, Decimal.isTruthy_of_isInteger ha, Decimal.isTruthy_of_isInteger hb,
      ← Bool.decide_and]
    exact isExact_ofBool (m ≠ 0 ∧ n ≠ 0)
  | or =>
    cases h
    rw [apply, Decimal.isTruthy_of_isInteger ha, Decimal.isTruthy_of_isInteger hb,
      ← Bool.decide_or]
    exact isExact_ofBool (m ≠ 0 ∨ n ≠ 0)
  | lessThan =>
    cases h
    rw [apply, Decimal.lessThan_of_isInteger ha hb]
    exact isExact_ofBool (m < n)
  | lessOrEqual =>
    cases h
    rw [apply, Decimal.atMost_of_isInteger ha hb]
    exact isExact_ofBool (m ≤ n)
  | greaterThan =>
    cases h
    rw [apply, Decimal.lessThan_of_isInteger hb ha]
    exact isExact_ofBool (n < m)
  | greaterOrEqual =>
    cases h
    rw [apply, Decimal.atMost_of_isInteger hb ha]
    exact isExact_ofBool (n ≤ m)
  | equal =>
    cases h
    rw [apply, Decimal.equals_of_isInteger ha hb]
    exact isExact_ofBool (m = n)
  | notEqual =>
    cases h
    rw [apply, Decimal.equals_of_isInteger ha hb, ← decide_not]
    exact isExact_ofBool (m ≠ n)

end BinaryOp

namespace Tree

/-! ## What the type rules out -/

/-- A tree of integer type has a value in the integers. -/
theorem exists_integerValue? {tree : Tree} (h : tree.dataType = .integer) :
    ∃ value, tree.integerValue? = some value := by
  induction tree with
  | integer value => exact ⟨_, rfl⟩
  | decimal _ | var _ | call _ _ _ _ => cases h
  | binary op left right ihl ihr =>
    obtain ⟨hleft, hright, hop⟩ := BinaryOp.resultType_eq_integer h
    obtain ⟨m, hm⟩ := ihl hleft
    obtain ⟨n, hn⟩ := ihr hright
    obtain ⟨value, hvalue⟩ := BinaryOp.exists_onIntegers? hop m n
    exact ⟨value, by rw [integerValue?, hm, hn, ← hvalue]⟩
  | negate argument ih =>
    obtain ⟨n, hn⟩ := ih h
    exact ⟨-n, by rw [integerValue?, hn]⟩

/-- A tree of integer type calls no function. -/
theorem functionNames_of_integer {tree : Tree} (h : tree.dataType = .integer) :
    tree.functionNames = [] := by
  induction tree with
  | integer _ => rfl
  | decimal _ | var _ | call _ _ _ _ => cases h
  | binary op left right ihl ihr =>
    obtain ⟨hleft, hright, _⟩ := BinaryOp.resultType_eq_integer h
    rw [functionNames_binary, ihl hleft, ihr hright]
    rfl
  | negate argument ih => exact ih h

/-- Nothing that is registered or bound matters to a tree of integer type. -/
theorem valueUnder_of_integer {tree : Tree} (h : tree.dataType = .integer)
    (functions functions' : Functions) (lookup lookup' : Lookup) :
    tree.valueUnder functions lookup = tree.valueUnder functions' lookup' := by
  induction tree with
  | integer _ => rfl
  | decimal _ | var _ | call _ _ _ _ => cases h
  | binary op left right ihl ihr =>
    obtain ⟨hleft, hright, _⟩ := BinaryOp.resultType_eq_integer h
    rw [valueUnder, valueUnder, ihl hleft, ihr hright]
  | negate argument ih => rw [valueUnder, valueUnder, ih h]

/-! ## Values -/

/-- The value of an operator is made of the values of its operands. -/
theorem integerValue?_binary_eq_some {op : BinaryOp} {left right : Tree} {value : Int}
    (h : (binary op left right).integerValue? = some value) :
    ∃ m n, left.integerValue? = some m ∧ right.integerValue? = some n ∧
      op.onIntegers? m n = some value := by
  rw [integerValue?] at h
  split at h
  · rename_i m n hm hn
    exact ⟨m, n, hm, hn, h⟩
  · cases h

theorem integerValue?_negate_eq_some {argument : Tree} {value : Int}
    (h : (negate argument).integerValue? = some value) :
    ∃ n, argument.integerValue? = some n ∧ value = -n := by
  rw [integerValue?] at h
  split at h
  · rename_i n hn
    cases h
    exact ⟨n, hn, rfl⟩
  · cases h

/-- Evaluation gives the value in the integers if every node is in range, and
an overflow if not. -/
theorem isExact_valueUnder {tree : Tree} {value : Int} (h : tree.integerValue? = some value)
    (functions : Functions) (lookup : Lookup) :
    IsExact tree.StaysInRange value (tree.valueUnder functions lookup) := by
  induction tree generalizing value with
  | decimal _ | var _ | call _ _ _ _ => cases h
  | integer literal =>
    cases h
    exact .value (staysInRange_integer literal) (Decimal.isInteger_ofInt64 literal)
  | negate argument ih =>
    obtain ⟨n, hn, rfl⟩ := integerValue?_negate_eq_some h
    have hargument := ih hn
    rw [valueUnder]
    generalize argument.valueUnder functions lookup = result at hargument ⊢
    cases hargument with
    | value hrange hd => exact .value (staysInRange_negate_iff.mpr hrange) hd.negate
    | overflow hrange => exact .overflow (mt staysInRange_negate_iff.mp hrange)
  | binary op left right ihl ihr =>
    obtain ⟨m, n, hm, hn, hvalue⟩ := integerValue?_binary_eq_some h
    have hleft := ihl hm
    have hright := ihr hn
    rw [valueUnder]
    generalize left.valueUnder functions lookup = leftResult at hleft ⊢
    generalize right.valueUnder functions lookup = rightResult at hright ⊢
    cases hleft with
    | overflow hrange => exact .overflow fun h => hrange (staysInRange_binary_iff.mp h).2.1
    | value hleftRange ha =>
      cases hright with
      | overflow hrange => exact .overflow fun h => hrange (staysInRange_binary_iff.mp h).2.2
      | value hrightRange hb =>
        -- With both operands in range, only the node itself is left.
        have hrange : (binary op left right).StaysInRange ↔ Decimal.Fits value := by
          rw [staysInRange_binary_iff, fits_iff h]
          exact ⟨And.left, fun hfits => ⟨hfits, hleftRange, hrightRange⟩⟩
        rw [hrange]
        exact BinaryOp.isExact_apply hvalue ha hb

end Tree

/-! ## Executors -/

/-- A formula of integer type has one result in all executions, whether it is
evaluated at once or built for later calls, under all functions, constants
and variables.  The result is the value in unbounded arithmetic if every
subtree has a value of at most 96 bits, and an overflow otherwise. -/
theorem integer_formulas_are_exact {tree : Tree} (h : tree.dataType = .integer) :
    ∃ (value : Int) (result : Except EvaluationError Decimal),
      tree.integerValue? = some value ∧
      (tree.StaysInRange → ∃ d : Decimal, result = .ok d ∧ d.IsInteger value) ∧
      (¬tree.StaysInRange → result = .error .overflow) ∧
      (∀ (mode : ExecutionMode) (caseSensitive : Bool) (functions : Functions)
        (constants : Constants) (vars : Variables),
        mode.execute caseSensitive tree functions constants vars = result) ∧
      ∀ (mode : ExecutionMode) (built : Functions), ∃ executable,
        Executable.ofTree mode built tree = .ok executable ∧
        ∀ (number : Nat) (caseSensitive : Bool) (functions : Functions)
          (constants : Constants) (vars : Variables), Registry.Keeps built functions →
          Formula.call ⟨number, caseSensitive, executable⟩ functions constants vars = result := by
  obtain ⟨value, hvalue⟩ := Tree.exists_integerValue? h
  -- Any functions and bindings will do, so nothing is registered or bound.
  obtain ⟨result, hresult⟩ : ∃ result, ∀ functions lookup,
      tree.valueUnder functions lookup = result :=
    ⟨tree.valueUnder (.empty false) (Variables.get ⟨[]⟩), fun functions lookup =>
      Tree.valueUnder_of_integer h functions (.empty false) lookup (Variables.get ⟨[]⟩)⟩
  have hexact : IsExact tree.StaysInRange value result :=
    hresult (.empty false) (Variables.get ⟨[]⟩) ▸ Tree.isExact_valueUnder hvalue _ _
  have hnames := Tree.functionNames_of_integer h
  refine ⟨value, result, hvalue, ?_, ?_, ?_, ?_⟩
  · intro hrange
    cases hexact with
    | value _ hd => exact ⟨_, rfl, hd⟩
    | overflow hout => exact absurd hrange hout
  · intro hout
    cases hexact with
    | value hrange _ => exact absurd hrange hout
    | overflow _ => rfl
  · intro mode caseSensitive functions constants vars
    cases mode with
    | interpreted => rw [execute_interpreted, hresult]
    | compiled =>
      have hknown : tree.unknownFunction? functions = none := by
        rw [Tree.unknownFunction?, hnames, List.find?_nil]
      rw [execute_compiled, hknown]
      exact hresult functions _
  · intro mode built
    have hregistered : ∀ name ∈ tree.functionNames, (built.find? name).isSome := by
      simp [hnames]
    obtain ⟨executable, hexecutable⟩ := Executable.exists_ofTree mode hregistered
    refine ⟨executable, hexecutable, ?_⟩
    intro number caseSensitive functions constants vars hkeeps
    rw [Formula.call, Executable.run_ofTree hkeeps hexecutable, hresult]

/-- The greatest number of 96 bits as a sum whose operands are smaller. -/
def Tree.greatestSum : Tree :=
  .binary .add
    (.binary .multiply (.integer 281474976710656) (.integer 281474976710655))
    (.integer 281474976710655)

/-- The same number as a difference from a product of 97 bits. -/
def Tree.greatestDifference : Tree :=
  .binary .subtract
    (.binary .multiply (.integer 281474976710656) (.integer 281474976710656))
    (.integer 1)

/-- Of two formulas with one value, the one with the greater product
overflows. -/
theorem integer_formulas_are_exact_of_greatest :
    Tree.greatestSum.integerValue? = Tree.greatestDifference.integerValue? ∧
      (∀ (mode : ExecutionMode) (functions : Functions) (constants : Constants)
        (vars : Variables), ∃ d : Decimal,
        mode.execute false .greatestSum functions constants vars = .ok d ∧
          d.IsInteger 79228162514264337593543950335) ∧
      ∀ (mode : ExecutionMode) (functions : Functions) (constants : Constants)
        (vars : Variables),
        mode.execute false .greatestDifference functions constants vars = .error .overflow := by
  have hsum : Tree.greatestSum.integerValue? = some 79228162514264337593543950335 := by decide
  have hsumType : Tree.greatestSum.dataType = .integer := rfl
  have hdifferenceType : Tree.greatestDifference.dataType = .integer := rfl
  refine ⟨by decide, ?_, ?_⟩
  · obtain ⟨value, result, hvalue, hok, -, hexecute, -⟩ :=
      integer_formulas_are_exact hsumType
    obtain ⟨d, hd, hinteger⟩ := hok (by decide)
    rw [hvalue] at hsum
    cases hsum
    exact fun mode functions constants vars =>
      ⟨d, by rw [hexecute, hd], hinteger⟩
  · obtain ⟨value, result, -, -, hoverflow, hexecute, -⟩ :=
      integer_formulas_are_exact hdifferenceType
    exact fun mode functions constants vars => by
      rw [hexecute, hoverflow (by decide)]

end FormulaEngine
