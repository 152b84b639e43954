import FormulaEngine.Proofs.Engine.OneShot
import FormulaEngine.Proofs.Engine.PartialEvaluation
import FormulaEngine.Proofs.Tree.LetterCase

/-!
# Engines that ignore case

Two requests that differ in the case of letters only are the same request to
an engine that ignores case.  The two runs are compared by way of the lowered
text, which `Tree.read_foldCase` relates to each of them.

* `prepare_foldCase`: the lowered text has the same executable, or fails in the
  same way.
* `accepts_of_sameUpToCase` and `find?_fold_of_sameUpToCase`: the variables are
  accepted together, and a formula finds the same values among them.
* `Session.answerAll_ignoresCase`: no request changes that the engine ignores
  case.

`case_is_irrelevant` is the result, for calculations and registrations.
-/

namespace FormulaEngine

open Text

/-! ## Names -/

/-- The same names up to case, in any order, with the same values. -/
def Variables.SameUpToCase (vars vars' : Variables) : Prop :=
  (vars.bindings.map (foldBinding false)).Perm (vars'.bindings.map (foldBinding false))

instance (vars vars' : Variables) : Decidable (vars.SameUpToCase vars') :=
  inferInstanceAs (Decidable (List.Perm _ _))

theorem isBlank_of_foldCase_eq {text text' : String} (h : foldCase text = foldCase text') :
    isBlank text = isBlank text' :=
  calc isBlank text
    _ = isBlank (foldCase text) := (isBlank_canonical false text).symm
    _ = isBlank (foldCase text') := by rw [h]
    _ = isBlank text' := isBlank_canonical false text'

theorem utf8ByteSize_of_foldCase_eq {text text' : String} (h : foldCase text = foldCase text') :
    text.utf8ByteSize = text'.utf8ByteSize := by
  rw [← utf8ByteSize_foldCase text, h, utf8ByteSize_foldCase]

/-- A registry that ignores case registers the same under both names. -/
theorem Registry.register_of_foldCase_eq {noun : Noun} {α : Type} {registry : Registry noun α}
    (hpolicy : registry.caseSensitive = false) {name name' : String}
    (h : foldCase name = foldCase name') (content : α) (isOverwritable : Bool) :
    registry.register name content isOverwritable =
      registry.register name' content isOverwritable := by
  have hcanonical : canonical registry.caseSensitive name =
      canonical registry.caseSensitive name' := by
    rw [hpolicy]
    exact h
  rw [register, register, canonicalName, canonicalName, isBlank_of_foldCase_eq h, hcanonical]

/-! ## Results -/

/-- The same value, or two failures of the same kind at the same place. -/
inductive SameUpToCase {α : Type} : Except Failure α → Except Failure α → Prop where
  | ok (a : α) : SameUpToCase (.ok a) (.ok a)
  | error {failure failure' : Failure} (kind : failure.cause.code = failure'.cause.code)
    (location : failure.location = failure'.location) :
    SameUpToCase (.error failure) (.error failure')

theorem SameUpToCase.eq_of_ok {α : Type} {a b : α}
    (h : SameUpToCase (.ok a : Except Failure α) (.ok b)) : a = b := by
  cases h
  rfl

/-- Errors without a range in the text are about all of it. -/
theorem SameUpToCase.of_text {α : Type} {text text' : String}
    (h : foldCase text = foldCase text') {cause cause' : Cause}
    (hkind : cause.code = cause'.code) (hrange : cause.range? = none)
    (hrange' : cause'.range? = none) :
    SameUpToCase (.error (.of text cause) : Except Failure α) (.error (.of text' cause')) := by
  refine .error hkind ?_
  rw [Failure.of, Failure.of, hrange, hrange', utf8ByteSize_of_foldCase_eq h]

/-- Results that are the same after lowering. -/
theorem SameUpToCase.of_mapError {α : Type} {result result' : Except Failure α}
    (h : result.mapError Failure.fold = result'.mapError Failure.fold) :
    SameUpToCase result result' := by
  cases result with
  | ok a =>
    cases result' with
    | ok a' =>
      cases h
      exact .ok a
    | error failure' => cases h
  | error failure =>
    cases result' with
    | ok a' => cases h
    | error failure' =>
      have hfold : failure.fold = failure'.fold := Except.error.inj h
      have hcause : failure.cause.fold = failure'.cause.fold := congrArg Failure.cause hfold
      have hlocation : failure.fold.location = failure'.fold.location :=
        congrArg Failure.location hfold
      refine .error ?_ hlocation
      rw [← Cause.code_fold, hcause, Cause.code_fold]

namespace Engine

/-! ## Texts -/

/-- A lowered text has the same executable, or fails in the same way. -/
theorem prepare_foldCase {options : Options}
    (hrespelling : Respelling ⟨options.decimalSeparator⟩ ⟨options.decimalSeparator⟩ Char.toLower)
    {functions : Functions} {bound : Constants}
    (h : Scope.IgnoresCase ⟨functions, bound, options.caseSensitive⟩) (text : String) :
    prepare options functions (foldCase text) bound =
      (prepare options functions text bound).mapError Failure.fold := by
  have hfold (e : EvaluationError) : Failure.of (foldCase text) (.evaluation e) =
      (Failure.of text (.evaluation e)).fold :=
    (Failure.fold_of hrespelling text (.evaluation e)).symm
  unfold prepare
  rw [Tree.read_foldCase hrespelling h]
  cases Tree.read ⟨options.decimalSeparator⟩ ⟨functions, bound, options.caseSensitive⟩ text with
  | error failure => rfl
  | ok tree =>
    dsimp only [Except.mapError]
    cases simplified options functions tree with
    | error e => exact congrArg Except.error (hfold e)
    | ok simple =>
      dsimp only
      cases Executable.ofTree options.executionMode functions simple with
      | error e => exact congrArg Except.error (hfold e)
      | ok executable => rfl

end Engine

/-! ## Variables -/

section Variables

variable {vars vars' : Variables} (hsame : vars.SameUpToCase vars')
  (hnodup : (vars.names.map foldCase).Nodup)

include hsame

theorem perm_names_of_sameUpToCase :
    (vars.names.map foldCase).Perm (vars'.names.map foldCase) := by
  have hperm := hsame.map Prod.fst
  rw [Variables.map_fst_foldBinding, Variables.map_fst_foldBinding] at hperm
  exact hperm

include hnodup

/-- The same values are found among variables that are the same up to case. -/
theorem find?_fold_of_sameUpToCase (name : String) :
    (vars.fold false).find? name = (vars'.fold false).find? name := by
  have hnodup' := (perm_names_of_sameUpToCase hsame).nodup hnodup
  have hfind {vars : Variables} (h : (vars.names.map foldCase).Nodup) (name : String) :
      (vars.fold false).find? name =
        (Variables.mk (vars.bindings.map (Variables.foldBinding false))).find? name :=
    @Variables.find?_fold vars false h name
  have hnames : (Variables.mk (vars.bindings.map (Variables.foldBinding false))).names.Nodup := by
    rw [Variables.names, Variables.map_fst_foldBinding]
    exact hnodup
  have hnames' : (Variables.mk (vars'.bindings.map (Variables.foldBinding false))).names.Nodup := by
    rw [Variables.names, Variables.map_fst_foldBinding]
    exact hnodup'
  rw [hfind hnodup, hfind hnodup']
  refine Option.ext fun value => ?_
  rw [Variables.find?_eq_some_iff_mem hnames, Variables.find?_eq_some_iff_mem hnames']
  exact hsame.mem_iff

/-- Variables are accepted together with those that are the same up to case. -/
theorem accepts_of_sameUpToCase {engine : Engine} (hpolicy : engine.options.caseSensitive = false)
    {accepted : Variables} (haccept : engine.acceptVariables vars = .ok accepted) :
    ∃ accepted', engine.acceptVariables vars' = .ok accepted' := by
  obtain ⟨_, hfree, _⟩ := Engine.acceptVariables_eq_ok_iff.mp haccept
  refine ⟨_, Engine.acceptVariables_eq_ok_iff.mpr ⟨?_, fun name hname => ?_, rfl⟩⟩
  · rw [hpolicy]
    exact (perm_names_of_sameUpToCase hsame).nodup hnodup
  · refine hfree name ?_
    rw [hpolicy] at hname ⊢
    rwa [← Variables.isSome_find?_iff, find?_fold_of_sameUpToCase hsame hnodup,
      Variables.isSome_find?_iff]

end Variables

/-! ## Engines -/

/-- An engine that looks names up without regard to case, and in whose numbers
and lists no letter is a separator. -/
structure Engine.IgnoresCase (engine : Engine) : Prop where
  separator : engine.options.decimalSeparator = '.' ∨ engine.options.decimalSeparator = ','
  policy : engine.options.caseSensitive = false
  functions : engine.functions.caseSensitive = false
  constants : engine.constants.caseSensitive = false
  tidy : engine.constants.IsTidy

namespace Engine.IgnoresCase

variable {engine : Engine} (h : engine.IgnoresCase)

include h

theorem scope : Scope.IgnoresCase ⟨engine.functions, .empty engine.options.caseSensitive,
    engine.options.caseSensitive⟩ :=
  ⟨h.functions, h.policy, h.policy⟩

/-- The formulas of both texts, prepared for an empty cache, give the same. -/
theorem valueOf {text text' : String} (htext : foldCase text = foldCase text')
    {result result' : Except Failure Formula}
    (hprepares : Prepares engine.options engine.functions text
      (.empty engine.options.caseSensitive) result)
    (hprepares' : Prepares engine.options engine.functions text'
      (.empty engine.options.caseSensitive) result')
    {accepted accepted' : Variables}
    (hfind : ∀ name, (accepted.fold engine.options.caseSensitive).find? name =
      (accepted'.fold engine.options.caseSensitive).find? name) :
    SameUpToCase (engine.valueOf text accepted result)
      (engine.valueOf text' accepted' result') := by
  have hrespelling := respelling_toLower (p := ⟨engine.options.decimalSeparator⟩) h.separator
  have hprepare : SameUpToCase
      (prepare engine.options engine.functions text (.empty engine.options.caseSensitive))
      (prepare engine.options engine.functions text' (.empty engine.options.caseSensitive)) := by
    refine .of_mapError ?_
    rw [← prepare_foldCase hrespelling h.scope, ← prepare_foldCase hrespelling h.scope, htext]
  cases result with
  | error failure =>
    rw [Prepares] at hprepares
    rw [hprepares] at hprepare
    cases result' with
    | error failure' =>
      rw [Prepares] at hprepares'
      rw [hprepares'] at hprepare
      cases hprepare with
      | error kind location => exact .error kind location
    | ok formula' =>
      rw [hprepares'.1] at hprepare
      cases hprepare
  | ok formula =>
    rw [hprepares.1] at hprepare
    cases result' with
    | error failure' =>
      rw [Prepares] at hprepares'
      rw [hprepares'] at hprepare
      cases hprepare
    | ok formula' =>
      rw [hprepares'.1] at hprepare
      have hexecutable := hprepare.eq_of_ok
      have hcall : engine.call formula accepted = engine.call formula' accepted' := by
        rw [Engine.call, Engine.call, Formula.call, Formula.call, hprepares.2, hprepares'.2,
          run_congr_of_prepare hprepares.1 hfind, hexecutable]
      rw [Engine.valueOf, Engine.valueOf, hcall]
      cases engine.call formula' accepted' with
      | error e => exact .of_text htext rfl rfl rfl
      | ok value => exact .ok value

/-- Calculations that differ in the case of letters only give the same, while
the cache is empty. -/
theorem calculate (hempty : engine.cache.slots = []) {text text' : String}
    (htext : foldCase text = foldCase text') {vars vars' : Variables}
    (hsame : vars.SameUpToCase vars') (hnodup : (vars.names.map foldCase).Nodup) :
    SameUpToCase (engine.calculate text vars).1 (engine.calculate text' vars').1 := by
  have hprepares (text : String) : Prepares engine.options engine.functions text
      (.empty engine.options.caseSensitive) (engine.textFormula text).1 :=
    prepares_formula fun _ hholds => absurd hholds (Cache.not_holds_of_slots_eq_nil hempty)
  have hconstants : engine.constants.caseSensitive = engine.options.caseSensitive :=
    h.constants.trans h.policy.symm
  rw [calculate_eq, calculate_eq, isBlank_of_foldCase_eq htext]
  split
  · exact .of_text htext rfl rfl rfl
  · cases haccept : engine.acceptVariables vars with
    | error e =>
      cases haccept' : engine.acceptVariables vars' with
      | error e' => exact .of_text htext rfl rfl rfl
      | ok accepted' =>
        have hnodup' := (perm_names_of_sameUpToCase hsame).nodup hnodup
        obtain ⟨accepted, haccepted⟩ :=
          accepts_of_sameUpToCase hsame.symm hnodup' h.policy haccept'
        rw [haccept] at haccepted
        cases haccepted
    | ok accepted =>
      obtain ⟨accepted', haccept'⟩ := accepts_of_sameUpToCase hsame hnodup h.policy haccept
      rw [haccept']
      refine h.valueOf htext (hprepares text) (hprepares text') fun name => ?_
      rw [find?_fold_accepted h.tidy hconstants haccept,
        find?_fold_accepted h.tidy hconstants haccept', h.policy,
        find?_fold_of_sameUpToCase hsame hnodup]

theorem registerFunction {name name' : String} (hname : foldCase name = foldCase name')
    (function : Function) (isOverwritable : Bool) :
    engine.registerFunction name function isOverwritable =
      engine.registerFunction name' function isOverwritable := by
  rw [Engine.registerFunction, Engine.registerFunction,
    Registry.register_of_foldCase_eq h.functions hname]

theorem registerConstant {name name' : String} (hname : foldCase name = foldCase name')
    (value : Decimal) (isOverwritable : Bool) :
    engine.registerConstant name value isOverwritable =
      engine.registerConstant name' value isOverwritable := by
  rw [Engine.registerConstant, Engine.registerConstant,
    Registry.register_of_foldCase_eq h.constants hname]

end Engine.IgnoresCase

/-! ## Runs -/

theorem Engine.ignoresCase_new {options : Options} (hpolicy : options.caseSensitive = false)
    (hseparator : options.decimalSeparator = '.' ∨ options.decimalSeparator = ',')
    (draw : Decimal) : (Engine.new options draw).IgnoresCase where
  separator := hseparator
  policy := hpolicy
  functions := by
    rw [Engine.new, hpolicy]
    dsimp only
    split <;> rfl
  constants := by
    rw [Engine.new, hpolicy]
    dsimp only
    split <;> rfl
  tidy := Engine.isTidy_new options draw

namespace Session

theorem answer_ignoresCase {session : Session} (h : session.engine.IgnoresCase)
    (request : Request) : (session.answer request).2.engine.IgnoresCase := by
  have hstep := session.answer_step request
  refine ⟨?_, ?_, ?_, ?_, answer_isTidy h.tidy request⟩
  · rw [hstep.options]
    exact h.separator
  · rw [hstep.options]
    exact h.policy
  · rw [hstep.functions]
    cases request with
    | registerFunction _ _ _ => exact (Registry.accept_keeps _ _).caseSensitive.trans h.functions
    | calculate _ _ | build _ _ _ | call _ _ | registerConstant _ _ _ | cacheGet _
    | cacheContains _ | cacheClear => exact h.functions
  · rw [hstep.constants]
    cases request with
    | registerConstant _ _ _ => exact (Registry.accept_keeps _ _).caseSensitive.trans h.constants
    | calculate _ _ | build _ _ _ | call _ _ | registerFunction _ _ _ | cacheGet _
    | cacheContains _ | cacheClear => exact h.constants

/-- An engine goes on ignoring case. -/
theorem answerAll_ignoresCase {session : Session} (h : session.engine.IgnoresCase)
    (requests : List Request) : (session.answerAll requests).2.engine.IgnoresCase := by
  induction requests generalizing session with
  | nil => exact h
  | cons request requests ih => exact ih (answer_ignoresCase h request)

/-- Case is irrelevant to an engine that ignores it, after any run of requests.
While its cache is empty, two calculations whose texts and variable names
differ in the case of letters only give the same value, or fail with the same
kind of error at the same place.  A function or constant is registered under
one name exactly as under the same name in other letters: the engines after it
are the same, or the errors are. -/
theorem case_is_irrelevant (options : Options) (draw : Decimal)
    (hpolicy : options.caseSensitive = false)
    (hseparator : options.decimalSeparator = '.' ∨ options.decimalSeparator = ',')
    (requests : List Request) :
    let engine := ((new options draw).answerAll requests).2.engine
    (engine.cache.slots = [] → ∀ text text' vars vars', foldCase text = foldCase text' →
      vars.SameUpToCase vars' → (vars.names.map foldCase).Nodup →
        SameUpToCase (engine.calculate text vars).1 (engine.calculate text' vars').1) ∧
      ∀ name name', foldCase name = foldCase name' →
        (∀ function isOverwritable, engine.registerFunction name function isOverwritable =
          engine.registerFunction name' function isOverwritable) ∧
        ∀ value isOverwritable, engine.registerConstant name value isOverwritable =
          engine.registerConstant name' value isOverwritable := by
  intro engine
  have hignores : engine.IgnoresCase :=
    answerAll_ignoresCase (Engine.ignoresCase_new hpolicy hseparator draw) requests
  exact ⟨fun hempty _ _ _ _ htext hsame hnodup => hignores.calculate hempty htext hsame hnodup,
    fun _ _ hname => ⟨hignores.registerFunction hname, hignores.registerConstant hname⟩⟩

/-- A function that doubles its argument. -/
def double : Function := .fixed 1 fun arguments =>
  BinaryOp.apply .add (arguments.headD .zero) (arguments.headD .zero)

/-- A function and a constant are registered, and a formula leaves the cache. -/
def mixedCase : List Request :=
  [.registerFunction "Double" double true, .registerConstant "kB" (.ofInt64 3) true,
    .calculate "double(kb)" .empty, .cacheClear]

theorem case_is_irrelevant_of_mixed_case :
    let engine := ((new running .zero).answerAll mixedCase).2.engine
    let vars : Variables := ⟨[("Ab", .ofInt64 5), ("c", .ofInt64 7)]⟩
    let vars' : Variables := ⟨[("C", .ofInt64 7), ("aB", .ofInt64 5)]⟩
    running.caseSensitive = false ∧
      (running.decimalSeparator = '.' ∨ running.decimalSeparator = ',') ∧
      engine.cache.slots = [] ∧
      foldCase "Double(aB - C) + 1E1 * Kb" = foldCase "dOUBLE(AB - c) + 1e1 * kB" ∧
      vars.SameUpToCase vars' ∧ (vars.names.map foldCase).Nodup ∧
      SameUpToCase (engine.calculate "Double(aB - C) + 1E1 * Kb" vars).1
        (engine.calculate "dOUBLE(AB - c) + 1e1 * kB" vars').1 ∧
      (engine.calculate "dOUBLE(AB - c) + 1e1 * kB" vars').1.toOption = some (.ofInt64 26) ∧
      foldCase "DOUBLE" = foldCase "double" ∧
      engine.registerFunction "DOUBLE" double false =
        engine.registerFunction "double" double false ∧
      (engine.registerFunction "double" double false).isOk = true := by
  intro engine vars vars'
  have hempty : engine.cache.slots = [] := by decide +kernel
  have htext : foldCase "Double(aB - C) + 1E1 * Kb" = foldCase "dOUBLE(AB - c) + 1e1 * kB" := by
    decide +kernel
  have hname : foldCase "DOUBLE" = foldCase "double" := by decide
  have hsame : vars.SameUpToCase vars' := by decide
  have hnodup : (vars.names.map foldCase).Nodup := by decide
  obtain ⟨hcalculate, hregister⟩ := case_is_irrelevant running .zero rfl (.inl rfl) mixedCase
  exact ⟨rfl, .inl rfl, hempty, htext, hsame, hnodup,
    hcalculate hempty _ _ _ _ htext hsame hnodup, by decide +kernel, hname,
    (hregister _ _ hname).1 double false, by decide +kernel⟩

end Session

end FormulaEngine
