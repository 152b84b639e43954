import FormulaEngine.Builtin
import FormulaEngine.Proofs.Evaluation.StructuralErrors
import FormulaEngine.Tree.Reader

/-!
# Formulas that were read do not fail because of their shape

The calls of a formula that was read fit the functions that it was read with, and
still do when its constant parts are folded.  So its evaluation can only fail in
a structural way if a function does.

The built-in functions do not (`Builtin.keepToArity`), and neither do closures of
a fixed number of arguments, which is what engines let their users add.  Whatever
is added to the built-in functions, and whatever a user tries to add in vain, the
functions of the engine keep to their arity (`keepToArity_extended`).
-/

namespace FormulaEngine

/-! ## Shapes of functions -/

namespace Function

/-- A function of `count` arguments is only called with that many. -/
theorem keepsToArity_fixed {count : Nat} {run : Callable}
    (h : ∀ arguments e, arguments.length = count → run arguments = .error e →
      e.isStructural = false) : (fixed count run).KeepsToArity := by
  intro arguments e hlength hrun
  have hcount : arguments.length = count := hlength
  have hexact : (fixed count run).run arguments = run arguments := if_pos hcount
  exact h arguments e hcount (hexact ▸ hrun)

/-- A function made of a closure of `count` numbers. -/
def native (count : Nat) (closure : List Decimal → Decimal) : Function :=
  fixed count fun arguments => .ok (closure arguments)

theorem keepsToArity_native (count : Nat) (closure : List Decimal → Decimal) :
    (native count closure).KeepsToArity :=
  keepsToArity_fixed fun _ _ _ => nofun

end Function

namespace Builtin

theorem isStructural_of_fromFloat {name : String} {x : Float} {e : EvaluationError}
    (h : fromFloat name x = .error e) : e.isStructural = false := by
  unfold fromFloat at h
  split at h <;> cases h
  rfl

theorem keepsToArity_onFloat (name : String) (f : Float → Float) :
    (onFloat name f).2.KeepsToArity := by
  refine Function.keepsToArity_fixed fun arguments e hlength h => ?_
  obtain ⟨x, rfl⟩ := List.length_eq_one_iff.mp hlength
  exact isStructural_of_fromFloat h

theorem keepsToArity_unary (name : String) (f : Decimal → Decimal) :
    (unary name f).2.KeepsToArity := by
  refine Function.keepsToArity_fixed fun arguments e hlength h => ?_
  obtain ⟨x, rfl⟩ := List.length_eq_one_iff.mp hlength
  cases h

theorem keepsToArity_choice (name : String) (holds : Decimal → Decimal → Bool) :
    (choice name holds).2.KeepsToArity := by
  refine Function.keepsToArity_fixed fun arguments e hlength h => ?_
  match arguments with
  | [a, b, yes, no] => cases h

/-- An aggregate complains about no arguments only, besides its own errors. -/
theorem keepsToArity_aggregate (name : String)
    {f : Decimal → List Decimal → Except EvaluationError Decimal}
    (hf : ∀ x xs e, f x xs = .error e → e.isStructural = false) :
    (aggregate name f).2.KeepsToArity := by
  intro arguments e hadmits h
  cases arguments with
  | nil => exact absurd hadmits (Nat.not_succ_le_zero 0)
  | cons x xs => exact hf x xs e h

/-! ## The tables -/

theorem keepToArity_floatFunctions :
    ∀ function ∈ floatFunctions, function.2.KeepsToArity := by
  simp only [floatFunctions, List.forall_mem_cons, keepsToArity_onFloat, true_and]
  refine ⟨?_, List.forall_mem_nil _⟩
  refine Function.keepsToArity_fixed fun arguments e hlength h => ?_
  obtain ⟨x, base, rfl⟩ := List.length_eq_two.mp hlength
  exact isStructural_of_fromFloat h

theorem keepToArity_roundingFunctions :
    ∀ function ∈ roundingFunctions, function.2.KeepsToArity := by
  simp only [roundingFunctions, List.forall_mem_cons, keepsToArity_unary, true_and]
  exact List.forall_mem_nil _

theorem keepToArity_conditionalFunctions :
    ∀ function ∈ conditionalFunctions, function.2.KeepsToArity := by
  simp only [conditionalFunctions, List.forall_mem_cons, keepsToArity_choice, true_and]
  refine ⟨?_, List.forall_mem_nil _⟩
  refine Function.keepsToArity_fixed fun arguments e hlength h => ?_
  match arguments with
  | [condition, yes, no] => cases h

theorem keepToArity_aggregateFunctions :
    ∀ function ∈ aggregateFunctions, function.2.KeepsToArity := by
  simp only [aggregateFunctions, List.forall_mem_cons]
  exact ⟨keepsToArity_aggregate "max" fun _ _ _ => nofun,
    keepsToArity_aggregate "min" fun _ _ _ => nofun,
    keepsToArity_aggregate "avg" fun _ _ _ => isStructural_of_orOverflow,
    keepsToArity_aggregate "median" fun _ _ _ => isStructural_of_orOverflow,
    List.forall_mem_nil _⟩

theorem keepsToArity_randomFunction (draw : Decimal) : (randomFunction draw).2.KeepsToArity :=
  fun _ _ _ => nofun

/-- The built-in functions keep to their arity. -/
theorem keepToArity (caseSensitive : Bool) (draw : Decimal) :
    KeepToArity (functionRegistry caseSensitive draw) := by
  have htable : ∀ function ∈ functions draw, function.2.KeepsToArity := by
    simp only [functions, List.forall_mem_append, List.forall_mem_singleton]
    exact ⟨⟨⟨⟨keepToArity_floatFunctions, keepToArity_roundingFunctions⟩,
      keepToArity_conditionalFunctions⟩, keepToArity_aggregateFunctions⟩,
      keepsToArity_randomFunction draw⟩
  intro entry hmem
  obtain ⟨function, hfunction, rfl⟩ := List.mem_map.mp hmem
  exact htable function hfunction

end Builtin

/-! ## Added functions -/

/-- A registration keeps all functions to their arity if the new one does. -/
theorem KeepToArity.accept {functions : Functions} (h : KeepToArity functions)
    {call : Registration Function} (hcall : call.content.KeepsToArity) :
    KeepToArity (functions.accept call) := by
  rw [Registry.accept]
  split
  · rename_i after hregister
    obtain ⟨_, _, rfl⟩ := Registry.register_eq_ok_iff.mp hregister
    intro entry hmem
    rcases Registry.mem_putEntry hmem with rfl | hold
    · exact hcall
    · exact h entry hold
  · exact h

theorem KeepToArity.acceptAll {functions : Functions} (h : KeepToArity functions)
    {calls : List (Registration Function)} (hcalls : ∀ call ∈ calls, call.content.KeepsToArity) :
    KeepToArity (functions.acceptAll calls) := by
  induction calls generalizing functions with
  | nil => exact h
  | cons call calls ih =>
    obtain ⟨hcall, hrest⟩ := List.forall_mem_cons.mp hcalls
    exact ih (h.accept hcall) hrest

/-- A closure of `count` numbers that is added under a name. -/
structure AddedFunction where
  name : String
  count : Nat
  closure : List Decimal → Decimal

/-- Added functions can be replaced later. -/
def AddedFunction.registration (added : AddedFunction) : Registration Function :=
  ⟨added.name, .native added.count added.closure, true⟩

/-- The built-in functions and some added ones. -/
def Builtin.extended (caseSensitive : Bool) (draw : Decimal) (added : List AddedFunction) :
    Functions :=
  (functionRegistry caseSensitive draw).acceptAll (added.map AddedFunction.registration)

theorem keepToArity_extended (caseSensitive : Bool) (draw : Decimal)
    (added : List AddedFunction) : KeepToArity (Builtin.extended caseSensitive draw added) := by
  refine (Builtin.keepToArity caseSensitive draw).acceptAll fun call hmem => ?_
  obtain ⟨function, _, rfl⟩ := List.mem_map.mp hmem
  exact Function.keepsToArity_native function.count function.closure

/-! ## Formulas -/

section

variable {p : Punctuation} {scope : Scope} {text : String} {tree : Tree}

theorem callsFit_of_read (h : Tree.read p scope text = .ok tree) :
    tree.CallsFit scope.functions := by
  obtain ⟨_, _, hassemble⟩ := Tree.exists_ofTokens_of_read h
  exact Assembly.callsFit_of_ofTokens hassemble

/-- The calls of a formula fit the functions that it was read with, before and
after the constant parts are folded.  With the built-in functions and those that
were added, neither the folding nor an evaluation in either mode fails because
of a call that should not be there. -/
theorem parsed_formulas_fit (h : Tree.read p scope text = .ok tree) :
    (∀ evaluated, evaluated = tree ∨ tree.simplify scope.functions = .ok evaluated →
        evaluated.CallsFit scope.functions) ∧
      ∀ caseSensitive draw added,
        scope.functions = Builtin.extended caseSensitive draw added →
        (∀ e, tree.simplify scope.functions = .error e → e.isStructural = false) ∧
          ∀ evaluated, evaluated = tree ∨ tree.simplify scope.functions = .ok evaluated →
            ∀ (mode : ExecutionMode) (caseSensitive' : Bool) (constants : Constants)
              (vars : Variables) (e : EvaluationError),
              mode.execute caseSensitive' evaluated scope.functions constants vars = .error e →
                e.isStructural = false := by
  have hfit := callsFit_of_read h
  have hfits : ∀ evaluated, evaluated = tree ∨ tree.simplify scope.functions = .ok evaluated →
      evaluated.CallsFit scope.functions := by
    rintro evaluated (rfl | hsimplify)
    · exact hfit
    · exact hfit.simplify hsimplify
  refine ⟨hfits, fun caseSensitive draw added hfunctions => ?_⟩
  have hkeep : KeepToArity scope.functions :=
    hfunctions ▸ keepToArity_extended caseSensitive draw added
  refine ⟨fun e hsimplify => Tree.isStructural_of_simplify hkeep hfit hsimplify, ?_⟩
  intro evaluated hevaluated mode caseSensitive' constants vars e hexecute
  exact Tree.isStructural_of_execute hkeep (hfits evaluated hevaluated) hexecute

end

/-- The built-in functions with an added one of one argument.  The name `SIN` is
refused. -/
def withTwice : Scope :=
  ⟨Builtin.extended false .zero [⟨"Twice", 1, fun _ => .ofInt64 6⟩, ⟨"SIN", 2, fun _ => .one⟩],
    .empty false, false⟩

theorem parsed_formulas_fit_of_added :
    ∃ tree simplified e,
      Tree.read {} withTwice "max(twice(x), random(), sin(y)) + TWICE(3)" = .ok tree ∧
        tree.simplify withTwice.functions = .ok simplified ∧
        tree.calls = [("max", 3), ("twice", 1), ("random", 0), ("sin", 1), ("twice", 1)] ∧
        simplified.calls = [("max", 3), ("twice", 1), ("random", 0), ("sin", 1)] ∧
        tree.CallsFit withTwice.functions ∧ simplified.CallsFit withTwice.functions ∧
        ExecutionMode.compiled.execute false simplified withTwice.functions (.empty false)
            ⟨[("Y", .one)]⟩ = .error e ∧
        e.isStructural = false := by
  have hresults :
      ((Tree.read {} withTwice "max(twice(x), random(), sin(y)) + TWICE(3)").toOption.map
        fun tree => (tree.calls, (tree.simplify withTwice.functions).toOption.map
          fun simplified => (simplified.calls, (ExecutionMode.compiled.execute false simplified
            withTwice.functions (.empty false) ⟨[("Y", .one)]⟩).toOption))) =
        some ([("max", 3), ("twice", 1), ("random", 0), ("sin", 1), ("twice", 1)],
          some ([("max", 3), ("twice", 1), ("random", 0), ("sin", 1)], none)) := by
    decide +kernel
  cases hread : Tree.read {} withTwice "max(twice(x), random(), sin(y)) + TWICE(3)" with
  | error failure =>
    rw [hread] at hresults
    cases hresults
  | ok tree =>
    rw [hread] at hresults
    obtain ⟨hbefore, hresults⟩ := Prod.mk.inj (Option.some.inj hresults)
    cases hsimplify : tree.simplify withTwice.functions with
    | error e =>
      rw [hsimplify] at hresults
      cases hresults
    | ok simplified =>
      rw [hsimplify] at hresults
      obtain ⟨hafter, hresult⟩ := Prod.mk.inj (Option.some.inj hresults)
      cases hexecute : ExecutionMode.compiled.execute false simplified withTwice.functions
          (.empty false) ⟨[("Y", .one)]⟩ with
      | ok value =>
        rw [hexecute] at hresult
        cases hresult
      | error e =>
        obtain ⟨hfits, hevaluations⟩ := parsed_formulas_fit hread
        obtain ⟨-, herrors⟩ := hevaluations false .zero _ rfl
        exact ⟨tree, simplified, e, rfl, hsimplify, hbefore, hafter, hfits tree (.inl rfl),
          hfits simplified (.inr hsimplify), hexecute,
          herrors simplified (.inr hsimplify) _ _ _ _ e hexecute⟩

end FormulaEngine
