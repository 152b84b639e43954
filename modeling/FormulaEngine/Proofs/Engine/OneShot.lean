import FormulaEngine.Proofs.Engine.Modes

/-!
# Calculations and calls of formulas

A calculation adds the constants of the engine to the variables first, and
then calls the formula of the text.  A formula that was built is called with
the variables alone, and its program looks up the constants while it runs.
Both give the same value.

* `Session.answerAll_isTidy`: the names of the constants are in canonical form,
  in every state.
* `lookUp_accepted`: a program finds the same values among the variables of a
  calculation as among the original ones and the constants.
* `textFormula_again`: the formula of a text is the same when the text is
  asked for again.  The cache may have it, from whenever, or may have lost it.

`calculate_eq_call` states it for all engines that run programs, after any run
of requests.
-/

namespace FormulaEngine

open Text

namespace Engine

/-! ## Names of a calculation -/

theorem isTidy_new (options : Options) (draw : Decimal) : (new options draw).constants.IsTidy := by
  rw [new]
  dsimp only
  split
  · have hnames : ∀ caseSensitive, ∀ entry ∈ (Builtin.constantRegistry caseSensitive).entries,
        Registry.IsCanonical caseSensitive entry.name := by decide +kernel
    exact hnames options.caseSensitive
  · intro entry hmem
    cases hmem

/-- The constants among the variables of a calculation are those that a
program finds itself. -/
theorem lookUp_accepted {engine : Engine} (htidy : engine.constants.IsTidy)
    (hpolicy : engine.constants.caseSensitive = engine.options.caseSensitive)
    {vars accepted : Variables} (haccept : engine.acceptVariables vars = .ok accepted)
    {name : String} (hname : canonical engine.options.caseSensitive name = name) :
    Program.lookUp ⟨accepted.fold engine.options.caseSensitive, engine.functions,
        engine.constants⟩ name =
      Program.lookUp ⟨vars.fold engine.options.caseSensitive, engine.functions,
        engine.constants⟩ name := by
  have hconstant := htidy.find?_eq (hpolicy.symm ▸ hname)
  rw [Program.lookUp, Program.lookUp]
  dsimp only
  rw [find?_fold_accepted htidy hpolicy haccept, hconstant]
  cases (vars.fold engine.options.caseSensitive).find? name with
  | some value => rfl
  | none => cases engine.constants.entry? name <;> rfl

end Engine

/-! ## Calls that find the same values -/

/-- A program that was made on the way gives the same value for all variables
under which it finds the same values. -/
theorem Formula.SameTree.call_congr {functions : Functions} {caseSensitive : Bool}
    {interpreted compiled : Formula} (h : SameTree functions caseSensitive interpreted compiled)
    {constants : Constants} {vars other : Variables}
    (hlookUp : ∀ name, canonical caseSensitive name = name →
      Program.lookUp ⟨vars.fold caseSensitive, functions, constants⟩ name =
        Program.lookUp ⟨other.fold caseSensitive, functions, constants⟩ name) :
    compiled.call functions constants vars = compiled.call functions constants other := by
  obtain ⟨tree, program, before, _, hprogram, hof, hkeeps, hresolved⟩ := h.executables
  rw [call, call, h.policy.2, hprogram, Executable.run, Executable.run,
    Program.run_ofTree hkeeps hof, Program.run_ofTree hkeeps hof]
  exact Tree.valueUnder_congr functions tree fun name hname =>
    hlookUp name (hresolved.canonical name hname)

/-- Every mode looks names up in the variables and in nothing else that calls
could differ in. -/
theorem ExecutionMode.lookup_congr (mode : ExecutionMode) {functions : Functions}
    {constants : Constants} {vars vars' : Variables}
    (hfind : ∀ name, vars.find? name = vars'.find? name) :
    mode.lookup ⟨vars, functions, constants⟩ = mode.lookup ⟨vars', functions, constants⟩ := by
  funext name
  cases mode with
  | interpreted =>
    change vars.get name = vars'.get name
    rw [Variables.get, Variables.get, hfind]
  | compiled =>
    change Program.lookUp _ name = Program.lookUp _ name
    rw [Program.lookUp, Program.lookUp, hfind]

namespace Engine

/-- A prepared executable is made from a tree. -/
theorem exists_tree_of_prepare {options : Options} {functions : Functions} {text : String}
    {bound : Constants} {executable : Executable}
    (h : prepare options functions text bound = .ok executable) :
    ∃ tree, Executable.ofTree options.executionMode functions tree = .ok executable := by
  unfold prepare at h
  split at h
  · cases h
  · split at h
    · cases h
    · rename_i simple _
      split at h
      · cases h
      · rename_i hexecutable
        cases h
        exact ⟨simple, hexecutable⟩

/-- An executable that was just prepared gives the same for variables with the
same values. -/
theorem run_congr_of_prepare {options : Options} {functions : Functions} {text : String}
    {bound : Constants} {executable : Executable}
    (h : prepare options functions text bound = .ok executable) {constants : Constants}
    {vars vars' : Variables} (hfind : ∀ name, vars.find? name = vars'.find? name) :
    executable.run ⟨vars, functions, constants⟩ =
      executable.run ⟨vars', functions, constants⟩ := by
  obtain ⟨tree, htree⟩ := exists_tree_of_prepare h
  rw [Executable.run_ofTree (.refl functions) htree, Executable.run_ofTree (.refl functions) htree,
    ExecutionMode.lookup_congr _ hfind]

end Engine

/-! ## The same text again -/

namespace Engine

/-- Builds of one text differ in their number only. -/
theorem SameBuild.construct {engine after : Engine} (hoptions : after.options = engine.options)
    (hfunctions : after.functions = engine.functions) (text : String) (bound : Constants) :
    SameBuild (engine.construct text bound).1 (after.construct text bound).1 := by
  obtain ⟨_, hfirst⟩ := construct_eq engine text bound
  obtain ⟨_, hsecond⟩ := construct_eq after text bound
  rw [hfirst, hsecond, hoptions, hfunctions]
  cases prepare engine.options engine.functions text bound with
  | error failure => exact .error failure
  | ok executable => exact .ok fun _ _ _ => rfl

/-- A formula is the same when it is asked for again. -/
theorem SameBuild.formula {engine after : Engine} {list : Recency Formula}
    (h : engine.cache.Refines list) (hoptions : after.options = engine.options)
    (hfunctions : after.functions = engine.functions) (text key : String) (bound : Constants)
    (hcache : engine.options.cacheEnabled = true →
      after.cache = (engine.cache.getOrAdd key (engine.construct text bound).1).2) :
    SameBuild (engine.formula text key bound).1 (after.formula text key bound).1 := by
  have hbuilt := SameBuild.construct hoptions hfunctions text bound
  have henabled' : after.options.cacheEnabled = engine.options.cacheEnabled := by rw [hoptions]
  cases henabled : engine.options.cacheEnabled with
  | false =>
    rw [henabled] at henabled'
    rwa [Engine.formula, Engine.formula, henabled, henabled', if_neg Bool.false_ne_true,
      if_neg Bool.false_ne_true]
  | true =>
    rw [henabled] at henabled'
    obtain ⟨hfirst, hafter⟩ := h.getOrAdd key (engine.construct text bound).1
    rw [← hcache henabled] at hafter
    have hsecond := (hafter.getOrAdd key (after.construct text bound).1).1
    rw [formula_of_cacheEnabled henabled, formula_of_cacheEnabled henabled']
    dsimp only
    rw [hfirst, hsecond]
    rcases list.getOrAdd_again key (engine.construct text bound).1
      (after.construct text bound).1 with hsame | ⟨hnew, hagain⟩
    · rw [hsame]
      exact .refl _
    · rw [hnew, hagain]
      exact hbuilt

/-- The formula of a text is the same when the text is asked for again. -/
theorem textFormula_again {engine : Engine} {list : Recency Formula}
    (h : engine.cache.Refines list) (text : String) :
    SameBuild (engine.textFormula text).1
      ((engine.textFormula text).2.textFormula text).1 := by
  obtain ⟨hoptions, hfunctions, _⟩ :=
    (formula_step engine text text (.empty engine.options.caseSensitive)).tables
  rw [textFormula, textFormula, hoptions]
  refine SameBuild.formula h hoptions hfunctions text text _ fun henabled => ?_
  rw [formula_of_cacheEnabled henabled]

/-! ## One engine -/

theorem build_none {engine : Engine} {text : String} (h : ¬isBlank text = true) :
    engine.build text none = engine.textFormula text :=
  build_eq_formula h (bindConstants_empty _)

theorem calculate_of_accepted {engine : Engine} {text : String} {vars accepted : Variables}
    (hnonblank : ¬isBlank text = true) (haccept : engine.acceptVariables vars = .ok accepted) :
    engine.calculate text vars =
      (engine.valueOf text accepted (engine.textFormula text).1, (engine.textFormula text).2) := by
  rw [calculate_eq, if_neg hnonblank, haccept]

/-- A calculation that is not refused has a text and accepted variables. -/
theorem accepted_of_calculate {engine : Engine} {text : String} {vars : Variables}
    (h : ∀ failure, (engine.calculate text vars).1 = .error failure →
      failure.cause.isInvalidArgument = false) :
    ¬isBlank text = true ∧ ∃ accepted, engine.acceptVariables vars = .ok accepted := by
  rw [calculate_eq] at h
  split at h
  · exact absurd (h _ rfl).symm Bool.false_ne_true
  · rename_i hnonblank
    cases haccept : engine.acceptVariables vars with
    | error e =>
      rw [haccept] at h
      exact absurd (h _ rfl).symm Bool.false_ne_true
    | ok accepted => exact ⟨hnonblank, accepted, rfl⟩

/-- The formula of a text gives a calculation what it gives a caller. -/
theorem InBothModes.valueOf_accepted {interpreted compiled : Engine}
    (h : InBothModes interpreted compiled) (htidy : compiled.constants.IsTidy) (text : String)
    {vars accepted : Variables} (haccept : compiled.acceptVariables vars = .ok accepted) :
    compiled.valueOf text accepted (compiled.textFormula text).1 =
      compiled.valueOf text vars (compiled.textFormula text).1 := by
  have hpolicy : compiled.constants.caseSensitive = compiled.options.caseSensitive := by
    rw [h.constants, h.policy, h.caseSensitive]
  obtain ⟨hresult, _⟩ := h.formula text text (.empty compiled.options.caseSensitive)
  rw [textFormula]
  generalize (interpreted.formula text text _).1 = result,
    (compiled.formula text text _).1 = result' at hresult
  cases hresult with
  | error failure => rfl
  | ok hsame =>
    rw [← h.functions, ← h.caseSensitive] at hsame
    have hcall := hsame.call_congr fun name (hname : canonical _ name = name) =>
      lookUp_accepted htidy hpolicy haccept hname
    rw [valueOf, valueOf, call, call, hcall]

/-- A calculation and a build, one after the other in either order. -/
theorem InBothModes.calculate_eq_valueOf {interpreted compiled : Engine}
    (h : InBothModes interpreted compiled) (htidy : compiled.constants.IsTidy) {text : String}
    (hnonblank : ¬isBlank text = true) {vars accepted : Variables}
    (haccept : compiled.acceptVariables vars = .ok accepted) :
    let calculated := compiled.calculate text vars
    let built := compiled.build text none
    calculated.1 = compiled.valueOf text vars built.1 ∧
      (built.2.calculate text vars).1 = built.2.valueOf text vars built.1 ∧
      calculated.1 = calculated.2.valueOf text vars (calculated.2.build text none).1 := by
  intro calculated built
  obtain ⟨_, list, _, hrefines, _⟩ := h.cache
  have hagain := textFormula_again hrefines text
  have hvalue := h.valueOf_accepted htidy text haccept
  have hcalculated : calculated = _ := calculate_of_accepted hnonblank haccept
  have hbuilt : built = _ := build_none hnonblank
  obtain ⟨hoptions, hfunctions, hconstants⟩ :=
    (formula_step compiled text text (.empty compiled.options.caseSensitive)).tables
  rw [← textFormula] at hoptions hfunctions hconstants
  rw [hcalculated, hbuilt, build_none hnonblank]
  generalize (compiled.textFormula text).2 = after at hagain hoptions hfunctions hconstants ⊢
  have haccept' : after.acceptVariables vars = .ok accepted :=
    (acceptVariables_congr (by rw [hoptions]) hfunctions hconstants vars).trans haccept
  refine ⟨hvalue, ?_, ?_⟩
  · calc (after.calculate text vars).1
      _ = after.valueOf text accepted (after.textFormula text).1 := by
        rw [calculate_of_accepted hnonblank haccept']
      _ = compiled.valueOf text accepted (compiled.textFormula text).1 :=
        (valueOf_of_sameBuild hfunctions hconstants text accepted hagain).symm
      _ = compiled.valueOf text vars (compiled.textFormula text).1 := hvalue
      _ = after.valueOf text vars (compiled.textFormula text).1 :=
        valueOf_of_sameBuild hfunctions hconstants text vars (.refl _)
  · exact hvalue.trans (valueOf_of_sameBuild hfunctions hconstants text vars hagain)

end Engine

/-! ## Runs -/

namespace Session

theorem answer_isTidy {session : Session} (h : session.engine.constants.IsTidy)
    (request : Request) : (session.answer request).2.engine.constants.IsTidy := by
  rw [(session.answer_step request).constants]
  cases request with
  | registerConstant name value isOverwritable => exact h.accept _
  | calculate _ _ | build _ _ _ | call _ _ | registerFunction _ _ _ | cacheGet _
  | cacheContains _ | cacheClear => exact h

/-- Requests keep the names of the constants in canonical form. -/
theorem answerAll_isTidy {session : Session} (h : session.engine.constants.IsTidy)
    (requests : List Request) : (session.answerAll requests).2.engine.constants.IsTidy := by
  induction requests generalizing session with
  | nil => exact h
  | cons request requests ih => exact ih (answer_isTidy h request)

/-- A calculation and a call give the same value.  An engine that runs
programs, after any run of requests, is asked to calculate a text and to build
it without constants, one after the other in either order.  Unless the
calculation is refused for its arguments, it gives what the built formula
gives for the same variables: the same value, the same error, or the error
of the build. -/
theorem calculate_eq_call (options : Options) (draw : Decimal)
    (hmode : options.executionMode = .compiled) (requests : List Request) (text : String)
    (vars : Variables) :
    let engine := ((new options draw).answerAll requests).2.engine
    let calculated := engine.calculate text vars
    let built := engine.build text none
    (∀ failure, calculated.1 = .error failure → failure.cause.isInvalidArgument = false) →
      calculated.1 = engine.valueOf text vars built.1 ∧
        (built.2.calculate text vars).1 = built.2.valueOf text vars built.1 ∧
        calculated.1 = calculated.2.valueOf text vars (calculated.2.build text none).1 := by
  intro engine calculated built hrefused
  obtain ⟨hnonblank, accepted, haccept⟩ := Engine.accepted_of_calculate hrefused
  have hnew : new { options with executionMode := .compiled } draw = new options draw := by
    rw [← hmode]
  -- An engine that evaluates trees goes through the same run.  Its formulas
  -- have the trees of the programs that the cache of this one holds.
  have hboth := ((inBothModes_new options draw).answerAll requests).2.engine
  rw [hnew] at hboth
  have htidy : engine.constants.IsTidy :=
    answerAll_isTidy (Engine.isTidy_new options draw : (new options draw).engine.constants.IsTidy)
      requests
  exact hboth.calculate_eq_valueOf htidy hnonblank haccept

/-- An engine that runs programs, without functions and constants. -/
def running : Options :=
  { executionMode := .compiled, defaultFunctions := false, defaultConstants := false }

/-- A formula is built before a constant that it names is there. -/
def lateConstant : List Request :=
  [.calculate "x + k" ⟨[("x", .one)]⟩, .registerConstant "K" (.ofInt64 5) true]

theorem calculate_eq_call_of_late_constant :
    let engine := ((new running .zero).answerAll lateConstant).2.engine
    let vars : Variables := ⟨[("X", .ofInt64 2)]⟩
    running.executionMode = .compiled ∧
      (∀ failure, (engine.calculate "x + k" vars).1 = .error failure →
        failure.cause.isInvalidArgument = false) ∧
      (engine.calculate "x + k" vars).1 =
        engine.valueOf "x + k" vars (engine.build "x + k" none).1 ∧
      (engine.calculate "x + k" vars).1.toOption = some (.ofInt64 7) := by
  intro engine vars
  have hvalue : (engine.calculate "x + k" vars).1.toOption = some (.ofInt64 7) := by
    decide +kernel
  have hrefused : ∀ failure, (engine.calculate "x + k" vars).1 = .error failure →
      failure.cause.isInvalidArgument = false := by
    intro failure hfailure
    rw [hfailure] at hvalue
    cases hvalue
  exact ⟨rfl, hrefused,
    (calculate_eq_call running .zero rfl lateConstant "x + k" vars hrefused).1, hvalue⟩

end Session

end FormulaEngine
