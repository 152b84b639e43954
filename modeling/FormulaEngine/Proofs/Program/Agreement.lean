import FormulaEngine.Proofs.Evaluation.Lookup
import FormulaEngine.Proofs.Registry.History

/-!
# Programs agree with evaluation

A program is made of a tree once and run many times, while functions and
constants are registered in between.  This module says what every run gives.

* `exists_ofTree` and `ofTree_of_unknown` say when a tree has a program: all
  its functions are registered, and otherwise the first name that is not is
  the error.
* `run_ofTree` is the run.  The functions at the time of the run may be later
  ones.  The calls of locked functions hold the function itself, so this
  rests on what registrations keep (`Registry.Keeps`).
* `execute_eq_ok_iff` and `execute_congr` are about one evaluation of a tree,
  in either mode.
* `call_after_registrations` is the statement for formulas and whole runs of
  registrations: a call gives what evaluation gives under the registries of
  the moment, with the constants added to the variables.
-/

namespace FormulaEngine

/-! ## Registries -/

/-- The tables that formulas are built and called with. -/
structure Registries where
  functions : Functions
  constants : Constants

/-- A call to register a function or a constant. -/
inductive RegistrationCall where
  | function (call : Registration Function)
  | constant (call : Registration Decimal)

namespace Registries

/-- The registries after a call.  A refused one changes nothing. -/
def accept (registries : Registries) : RegistrationCall → Registries
  | .function call => { registries with functions := registries.functions.accept call }
  | .constant call => { registries with constants := registries.constants.accept call }

/-- The registries after a run of calls. -/
def acceptAll (registries : Registries) (calls : List RegistrationCall) : Registries :=
  calls.foldl accept registries

/-- A run of calls keeps what is in both tables. -/
theorem acceptAll_keeps (registries : Registries) (calls : List RegistrationCall) :
    Registry.Keeps registries.functions (registries.acceptAll calls).functions ∧
      Registry.Keeps registries.constants (registries.acceptAll calls).constants := by
  induction calls generalizing registries with
  | nil => exact ⟨.refl _, .refl _⟩
  | cons call calls ih =>
    obtain ⟨hfunctions, hconstants⟩ := ih (registries.accept call)
    cases call with
    | function call =>
      exact ⟨(Registry.accept_keeps _ call).trans hfunctions, hconstants⟩
    | constant call =>
      exact ⟨hfunctions, (Registry.accept_keeps _ call).trans hconstants⟩

end Registries

namespace Program

/-! ## Which trees have a program -/

/-- A list of trees has programs exactly if every member has one. -/
theorem ofTrees_eq_ok_iff {functions : Functions} {trees : List Tree}
    {programs : List Program} :
    ofTrees functions trees = .ok programs ↔
      List.Forall₂ (fun tree program => ofTree functions tree = .ok program) trees programs := by
  induction trees generalizing programs with
  | nil => simp [ofTrees, eq_comm]
  | cons tree trees ih =>
    rw [ofTrees, List.forall₂_cons_left_iff]
    constructor
    · intro h
      split at h
      · cases h
      · rename_i program hprogram
        split at h
        · cases h
        · rename_i rest hrest
          cases h
          exact ⟨program, rest, hprogram, ih.mp hrest, rfl⟩
    · rintro ⟨program, rest, hprogram, hrest, rfl⟩
      rw [hprogram, ih.mpr hrest]

/-- A tree has a program if all its functions are registered. -/
theorem exists_ofTree {functions : Functions} {tree : Tree}
    (h : ∀ name ∈ tree.functionNames, (functions.find? name).isSome) :
    ∃ program, ofTree functions tree = .ok program := by
  induction tree with
  | integer value => exact ⟨_, rfl⟩
  | decimal value => exact ⟨_, rfl⟩
  | var name => exact ⟨_, rfl⟩
  | binary op left right ihl ihr =>
    obtain ⟨left', hleft⟩ := ihl fun name hn => h name (by simp [hn])
    obtain ⟨right', hright⟩ := ihr fun name hn => h name (by simp [hn])
    exact ⟨.binary op left' right', by rw [ofTree, hleft, hright]⟩
  | negate argument ih =>
    obtain ⟨argument', hargument⟩ := ih h
    exact ⟨.negate argument', by rw [ofTree, hargument]⟩
  | call name idempotent arguments ih =>
    obtain ⟨entry, hentry⟩ := Option.isSome_iff_exists.mp (h name (by simp))
    obtain ⟨arguments', harguments⟩ := exists_forall₂ fun argument hmem =>
      ih argument hmem fun other hn => h other (by simpa using Or.inr ⟨argument, hmem, hn⟩)
    exact ⟨call name entry arguments',
      by rw [ofTree, hentry, ofTrees_eq_ok_iff.mpr harguments]⟩

end Program

namespace Tree

/-- The first name in a tree that is called and not registered. -/
def unknownFunction? (functions : Functions) (tree : Tree) : Option String :=
  tree.functionNames.find? fun name => (functions.find? name).isNone

theorem unknownFunction?_binary (functions : Functions) (op : BinaryOp) (left right : Tree) :
    (binary op left right).unknownFunction? functions =
      (left.unknownFunction? functions).or (right.unknownFunction? functions) := by
  rw [unknownFunction?, functionNames_binary, List.find?_append]
  rfl

theorem unknownFunction?_call (functions : Functions) (name : String) (idempotent : Bool)
    (arguments : List Tree) :
    (call name idempotent arguments).unknownFunction? functions =
      if (functions.find? name).isNone then some name
      else arguments.findSome? (unknownFunction? functions) := by
  rw [unknownFunction?, functionNames_call, List.find?_cons, List.find?_flatMap]
  cases (functions.find? name).isNone <;> rfl

/-- A tree without unknown functions calls registered ones only. -/
theorem unknownFunction?_eq_none_iff {functions : Functions} {tree : Tree} :
    tree.unknownFunction? functions = none ↔
      ∀ name ∈ tree.functionNames, (functions.find? name).isSome := by
  simp [unknownFunction?, List.find?_eq_none, Option.isSome_iff_ne_none]

/-- A tree that has a value calls registered functions only. -/
theorem unknownFunction?_of_value {functions : Functions} {lookup : Lookup} {tree : Tree}
    {value : Decimal} (h : tree.valueUnder functions lookup = .ok value) :
    tree.unknownFunction? functions = none := by
  induction tree generalizing value with
  | integer _ | decimal _ | var _ => rfl
  | binary op left right ihl ihr =>
    obtain ⟨a, b, ha, hb, _⟩ := valueUnder_binary_eq_ok_iff.mp h
    rw [unknownFunction?_binary, ihl ha, ihr hb]
    rfl
  | negate argument ih =>
    obtain ⟨a, ha, _⟩ := valueUnder_negate_eq_ok_iff.mp h
    exact ih ha
  | call name idempotent arguments ih =>
    obtain ⟨entry, values, hentry, hvalues, _⟩ := valueUnder_call_eq_ok_iff.mp h
    rw [unknownFunction?_call, hentry, Option.isNone_some, if_neg Bool.false_ne_true,
      List.findSome?_eq_none_iff]
    intro argument hmem
    obtain ⟨value, hvalue⟩ := exists_value_of_mem hvalues hmem
    exact ih argument hmem hvalue

end Tree

namespace Program

theorem ofTrees_of_unknown {functions : Functions} {trees : List Tree} {name : String}
    (hunknown : ∀ tree ∈ trees, ∀ name, tree.unknownFunction? functions = some name →
      ofTree functions tree = .error (.functionNotDefined name))
    (h : trees.findSome? (Tree.unknownFunction? functions) = some name) :
    ofTrees functions trees = .error (.functionNotDefined name) := by
  induction trees with
  | nil => cases h
  | cons tree trees ih =>
    rw [List.findSome?_cons] at h
    rw [ofTrees]
    cases hfirst : tree.unknownFunction? functions with
    | some first =>
      rw [hfirst] at h
      cases h
      rw [hunknown tree List.mem_cons_self name hfirst]
    | none =>
      obtain ⟨program, hprogram⟩ :=
        exists_ofTree (Tree.unknownFunction?_eq_none_iff.mp hfirst)
      rw [hfirst] at h
      have hrest := ih (fun other hmem => hunknown other (List.mem_cons_of_mem _ hmem)) h
      rw [hprogram, hrest]

/-- The first unknown function is the error that a tree without a program
gives. -/
theorem ofTree_of_unknown {functions : Functions} {tree : Tree} {name : String}
    (h : tree.unknownFunction? functions = some name) :
    ofTree functions tree = .error (.functionNotDefined name) := by
  induction tree generalizing name with
  | integer _ | decimal _ | var _ => cases h
  | binary op left right ihl ihr =>
    rw [Tree.unknownFunction?_binary] at h
    rw [ofTree]
    cases hfirst : left.unknownFunction? functions with
    | some first =>
      rw [hfirst] at h
      cases h
      rw [ihl hfirst]
    | none =>
      obtain ⟨program, hprogram⟩ :=
        exists_ofTree (Tree.unknownFunction?_eq_none_iff.mp hfirst)
      rw [hfirst, Option.none_or] at h
      rw [hprogram, ihr h]
  | negate argument ih => rw [ofTree, ih h]
  | call called idempotent arguments ih =>
    rw [Tree.unknownFunction?_call] at h
    rw [ofTree]
    cases hcalled : functions.find? called with
    | none =>
      rw [hcalled] at h
      cases h
      rfl
    | some entry =>
      rw [hcalled] at h
      dsimp only
      rw [ofTrees_of_unknown (fun argument hmem name => ih argument hmem) h]

/-! ## Runs -/

/-- Programs with the results of the trees one by one have them together. -/
theorem runAll_congr {context : Context} {functions : Functions} {lookup : Lookup}
    {trees : List Tree} {programs : List Program}
    (h : List.Forall₂ (fun tree program =>
      run context program = tree.valueUnder functions lookup) trees programs) :
    runAll context programs = Tree.valuesUnder functions lookup trees := by
  induction h with
  | nil => rfl
  | cons hhead _ ih =>
    rewrite [runAll, Tree.valuesUnder, hhead, ih]
    rfl

/-- A call runs the function that is registered under its name at the time
of the run.  A locked function is held by the program, and is still the one
that is registered. -/
theorem run_call {context : Context} {before : Functions}
    (hkeeps : Registry.Keeps before context.functions) {name : String}
    {entry : Entry Function} (hentry : before.find? name = some entry)
    {arguments : List Tree} {programs : List Program} {idempotent : Bool}
    (harguments : runAll context programs =
      Tree.valuesUnder context.functions (lookUp context) arguments) :
    run context (call name entry programs) =
      (Tree.call name idempotent arguments).valueUnder context.functions (lookUp context) := by
  obtain ⟨now, hnow, hlocked⟩ := hkeeps.find? hentry
  rw [Tree.valueUnder, hnow, call]
  split
  · rewrite [run, harguments, hnow]
    rfl
  · rename_i hclosed
    have hsame : now = entry := hlocked (by simpa using hclosed)
    rewrite [run, harguments, hsame]
    rfl

/-- A run of the program of a tree is the evaluation of the tree with the
functions of the run. -/
theorem run_ofTree {context : Context} {before : Functions}
    (hkeeps : Registry.Keeps before context.functions) {tree : Tree} {program : Program}
    (h : ofTree before tree = .ok program) :
    run context program = tree.valueUnder context.functions (lookUp context) := by
  induction tree generalizing program with
  | integer value => cases h; rfl
  | decimal value => cases h; rfl
  | var name => cases h; rfl
  | binary op left right ihl ihr =>
    rw [ofTree] at h
    split at h
    · cases h
    · rename_i left' hleft
      split at h
      · cases h
      · rename_i right' hright
        cases h
        rewrite [run, Tree.valueUnder, ihl hleft, ihr hright]
        rfl
  | negate argument ih =>
    rw [ofTree] at h
    split at h
    · cases h
    · rename_i argument' hargument
      cases h
      rewrite [run, Tree.valueUnder, ih hargument]
      rfl
  | call name idempotent arguments ih =>
    rw [ofTree] at h
    split at h
    · cases h
    · rename_i entry hentry
      split at h
      · cases h
      · rename_i arguments' harguments
        cases h
        have hboth := (List.forall₂_and_left _ _).mpr ⟨ih, ofTrees_eq_ok_iff.mp harguments⟩
        refine run_call hkeeps hentry (runAll_congr ?_)
        exact hboth.imp fun argument program hargument => hargument.1 hargument.2

/-! ## One evaluation in either mode -/

end Program

/-- Where a mode looks names up. -/
def ExecutionMode.lookup (mode : ExecutionMode) (context : Context) : Lookup :=
  match mode with
  | .interpreted => context.vars.get
  | .compiled => Program.lookUp context

namespace Executable

/-- A tree that calls registered functions is made ready in either mode. -/
theorem exists_ofTree (mode : ExecutionMode) {functions : Functions} {tree : Tree}
    (h : ∀ name ∈ tree.functionNames, (functions.find? name).isSome) :
    ∃ executable, ofTree mode functions tree = .ok executable := by
  obtain ⟨program, hprogram⟩ := Program.exists_ofTree h
  cases mode with
  | interpreted => exact ⟨_, rfl⟩
  | compiled => exact ⟨.compiled program, by rw [ofTree, hprogram]⟩

/-- A run gives the value of the tree under the lookup of the mode. -/
theorem run_ofTree {mode : ExecutionMode} {context : Context} {before : Functions}
    (hkeeps : Registry.Keeps before context.functions) {tree : Tree} {executable : Executable}
    (h : ofTree mode before tree = .ok executable) :
    executable.run context = tree.valueUnder context.functions (mode.lookup context) := by
  cases mode with
  | interpreted =>
    cases h
    exact Tree.evaluate_eq_valueUnder context.functions context.vars tree
  | compiled =>
    rw [ofTree] at h
    cases hprogram : Program.ofTree before tree with
    | error e =>
      rw [hprogram] at h
      cases h
    | ok program =>
      rw [hprogram] at h
      cases h
      exact Program.run_ofTree hkeeps hprogram

end Executable

section Execution

variable (caseSensitive : Bool) (tree : Tree) (functions : Functions) (constants : Constants)
  (vars : Variables)

theorem execute_interpreted :
    ExecutionMode.interpreted.execute caseSensitive tree functions constants vars =
      tree.valueUnder functions (vars.fold caseSensitive).get :=
  Tree.evaluate_eq_valueUnder functions (vars.fold caseSensitive) tree

/-- An unknown function is refused before anything is evaluated. -/
theorem execute_compiled :
    ExecutionMode.compiled.execute caseSensitive tree functions constants vars =
      match tree.unknownFunction? functions with
      | some name => .error (.functionNotDefined name)
      | none => tree.valueUnder functions
          (Program.lookUp ⟨vars.fold caseSensitive, functions, constants⟩) := by
  rw [ExecutionMode.execute, Executable.ofTree]
  cases h : tree.unknownFunction? functions with
  | some name => rw [Program.ofTree_of_unknown h]
  | none =>
    obtain ⟨program, hprogram⟩ := Program.exists_ofTree (Tree.unknownFunction?_eq_none_iff.mp h)
    rw [hprogram]
    exact Program.run_ofTree (.refl functions) hprogram

variable {caseSensitive tree functions constants vars}

/-- The values of an evaluation are the values under the lookup of its mode. -/
theorem execute_eq_ok_iff {mode : ExecutionMode} {value : Decimal} :
    mode.execute caseSensitive tree functions constants vars = .ok value ↔
      tree.valueUnder functions
        (mode.lookup ⟨vars.fold caseSensitive, functions, constants⟩) = .ok value := by
  cases mode with
  | interpreted => rw [execute_interpreted]; rfl
  | compiled =>
    rw [execute_compiled]
    constructor
    · intro h
      split at h
      · cases h
      · exact h
    · intro h
      rw [Tree.unknownFunction?_of_value h]
      exact h

/-- Trees that agree on values and on unknown functions are evaluated alike. -/
theorem execute_congr {tree' : Tree} (mode : ExecutionMode)
    (hvalue : ∀ lookup, tree'.valueUnder functions lookup = tree.valueUnder functions lookup)
    (hunknown : tree'.unknownFunction? functions = tree.unknownFunction? functions) :
    mode.execute caseSensitive tree' functions constants vars =
      mode.execute caseSensitive tree functions constants vars := by
  cases mode with
  | interpreted => rw [execute_interpreted, execute_interpreted, hvalue]
  | compiled => rw [execute_compiled, execute_compiled, hvalue, hunknown]

end Execution

namespace Program

/-! ## Names in canonical form -/

/-- For a name in canonical form, falling back on the constants is the same
as adding the constants to the variables. -/
theorem lookUp_of_isCanonical {context : Context} {name : String}
    (h : Registry.IsCanonical context.constants.caseSensitive name) :
    lookUp context name = (Engine.withConstants context.constants context.vars).get name := by
  rw [lookUp, Variables.get, find?_withConstants, Registry.find?_of_isCanonical h]
  cases context.vars.find? name with
  | some value => rfl
  | none => cases context.constants.entry? name <;> rfl

end Program

/-! ## Formulas after registrations -/

/-- A compiled formula gives what evaluation gives, whatever is registered
after it was built.  The tree calls registered functions only, and its names
are in canonical form.  The calls that follow the build may be refused or
not, and may replace the functions of the formula. -/
theorem call_after_registrations (caseSensitive : Bool) (tree : Tree) (built : Registries)
    (hpolicy : built.constants.caseSensitive = caseSensitive)
    (hvars : ∀ name ∈ tree.variableNames, Registry.IsCanonical caseSensitive name)
    (hfunctions : ∀ name ∈ tree.functionNames, (built.functions.find? name).isSome) :
    ∃ executable, Executable.ofTree .compiled built.functions tree = .ok executable ∧
      ∀ (number : Nat) (calls : List RegistrationCall) (vars : Variables),
        Formula.call ⟨number, caseSensitive, executable⟩
            (built.acceptAll calls).functions (built.acceptAll calls).constants vars =
          tree.evaluate (built.acceptAll calls).functions
            (Engine.withConstants (built.acceptAll calls).constants
              (vars.fold caseSensitive)) := by
  obtain ⟨program, hprogram⟩ := Program.exists_ofTree hfunctions
  refine ⟨.compiled program, by rw [Executable.ofTree, hprogram], ?_⟩
  intro number calls vars
  obtain ⟨hkeeps, hconstants⟩ := built.acceptAll_keeps calls
  rw [Formula.call, Executable.run, Program.run_ofTree hkeeps hprogram,
    Tree.evaluate_eq_valueUnder]
  refine Tree.valueUnder_congr _ tree ?_
  intro name hname
  refine Program.lookUp_of_isCanonical ?_
  rw [hconstants.caseSensitive, hpolicy]
  exact hvars name hname

/-- A function `f` that gives zero and may be replaced, and no constants. -/
def Registries.openFunction : Registries :=
  ⟨⟨false, [⟨"f", ⟨.fixed 1, true, fun _ => .ok .zero⟩, true⟩]⟩, .empty false⟩

/-- A constant that comes late, a locked function in the place of `f`, and a
second replacement, which the lock refuses. -/
def RegistrationCall.lateCalls : List RegistrationCall :=
  [.constant ⟨"Late", .one, true⟩,
    .function ⟨"F", ⟨.fixed 1, true, fun arguments => .ok (arguments.headD .zero)⟩, false⟩,
    .function ⟨"f", ⟨.fixed 1, true, fun _ => .ok .one⟩, true⟩]

/-- The sum of `f(x)` and `late`. -/
def Tree.lateSum : Tree := .binary .add (.call "f" true [.var "x"]) (.var "late")

theorem call_after_replacement :
    Registries.openFunction.constants.caseSensitive = false ∧
      (∀ name ∈ Tree.lateSum.variableNames, Registry.IsCanonical false name) ∧
      (∀ name ∈ Tree.lateSum.functionNames,
        (Registries.openFunction.functions.find? name).isSome) ∧
      ∃ executable,
        Executable.ofTree .compiled Registries.openFunction.functions .lateSum
            = .ok executable ∧
          Formula.call ⟨0, false, executable⟩
              (Registries.openFunction.acceptAll RegistrationCall.lateCalls).functions
              (Registries.openFunction.acceptAll RegistrationCall.lateCalls).constants
              ⟨[("X", .ofInt64 2)]⟩
            = .ok (.ofInt64 3) := by
  refine ⟨rfl, by decide, by decide, ?_⟩
  obtain ⟨executable, hexecutable, hcall⟩ :=
    call_after_registrations false .lateSum .openFunction rfl (by decide) (by decide)
  refine ⟨executable, hexecutable, ?_⟩
  rw [hcall 0 RegistrationCall.lateCalls ⟨[("X", .ofInt64 2)]⟩]
  rfl

end FormulaEngine
