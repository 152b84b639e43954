import FormulaEngine.Proofs.Assembly.Substitution
import FormulaEngine.Proofs.Engine.Replacement
import FormulaEngine.Proofs.Evaluation.FoldedNames
import FormulaEngine.Proofs.Program.Agreement

/-!
# Bound constants and variables

A constant can be given to a build, and then it is put in place of its name,
or to each call, as a variable.  Both give the same value, and the same error.

* `prepare_substitute` compares the two builds.
* `Engine.lookup_overriddenBy` compares the two calls: a name has the value of
  the constant, and else it is looked up as before, in either mode.
* `Engine.Specializes` relates the results of the two builds, and
  `specializes_of_prepares` says that whatever the engine prepares is so
  related.

`binding_is_partial_evaluation` states it for an engine with an empty cache.
There the build that comes second cannot find the formula of the first one,
unless no constants are bound.
-/

namespace FormulaEngine

open Text

namespace Engine

/-! ## Bound names -/

/-- A constant with a blank name cannot be bound. -/
theorem isBlank_of_bindAll {bound after : Constants} {bindings : List (String × Decimal)}
    (h : bindAll bound bindings = .ok after) :
    ∀ name ∈ bindings.map Prod.fst, isBlank name = false := by
  induction bindings generalizing bound with
  | nil => exact nofun
  | cons binding bindings ih =>
    obtain ⟨name, value⟩ := binding
    rw [bindAll] at h
    split at h
    · cases h
    · rename_i middle hregister
      exact List.forall_mem_cons.mpr ⟨(Registry.register_eq_ok_iff.mp hregister).1, ih h⟩

theorem isBlank_of_bindConstants {caseSensitive : Bool} {constants : Variables}
    {bound : Constants} (h : bindConstants caseSensitive constants = .ok bound) :
    ∀ name ∈ (constants.fold caseSensitive).names, isBlank name = false := by
  unfold bindConstants at h
  split at h
  · cases h
  · split at h
    · cases h
    · rename_i hbind
      exact isBlank_of_bindAll hbind

theorem entry?_boundTo (caseSensitive : Bool) (vars : Variables) (name : String) :
    (Registry.entry? (boundTo caseSensitive vars) name).map Entry.content = vars.find? name := by
  obtain ⟨bindings⟩ := vars
  rw [boundTo, Registry.entry?, Variables.find?]
  dsimp only
  induction bindings with
  | nil => rfl
  | cons binding bindings ih =>
    rw [List.map_cons, List.find?_cons, List.lookup_cons, ← ih]
    by_cases hname : name = binding.1
    · simp [hname, boundEntry]
    · have hother : ((boundEntry binding).name == name) = false :=
        beq_false_of_ne (Ne.symm hname)
      rw [hother, beq_false_of_ne hname]

/-- A canonical name has the value of the constant that is bound to it. -/
theorem find?_bound {caseSensitive : Bool} {constants : Variables} {bound : Constants}
    (hbound : bindConstants caseSensitive constants = .ok bound) {name : String}
    (hname : canonical caseSensitive name = name) :
    (bound.find? name).map Entry.content = (constants.fold caseSensitive).find? name := by
  have hnonblank := isBlank_of_bindConstants hbound
  obtain ⟨rfl, _⟩ := bindConstants_eq_ok hbound
  rw [Registry.find?_eq]
  split
  · rename_i hblank
    rw [Option.map_none, eq_comm, ← Option.not_isSome_iff_eq_none, Variables.isSome_find?_iff]
    intro hmem
    rw [hnonblank name hmem] at hblank
    exact absurd hblank Bool.false_ne_true
  · rw [show (boundTo caseSensitive (constants.fold caseSensitive)).caseSensitive = caseSensitive
      from rfl, hname]
    exact entry?_boundTo _ _ _

end Engine

/-! ## Calls -/

/-- A name that is first looked up elsewhere. -/
theorem ExecutionMode.lookup_of_find? (mode : ExecutionMode) {functions : Functions}
    {constants : Constants} {vars vars' : Variables} {name : String} {first : Option Decimal}
    (h : vars'.find? name = first.or (vars.find? name)) :
    mode.lookup ⟨vars', functions, constants⟩ name =
      first.elim (mode.lookup ⟨vars, functions, constants⟩ name) .ok := by
  cases mode <;> cases first <;> simp [lookup, Variables.get, Program.lookUp, h]

/-- Bound constants are looked up like variables that override others. -/
theorem Engine.lookup_overriddenBy {caseSensitive : Bool} {constants : Variables}
    {bound : Constants} (hbound : bindConstants caseSensitive constants = .ok bound)
    (mode : ExecutionMode) (functions : Functions) (registry : Constants) (vars : Variables)
    {name : String} (hname : canonical caseSensitive name = name) :
    (mode.lookup ⟨vars.fold caseSensitive, functions, registry⟩).after bound name =
      mode.lookup ⟨((vars.fold caseSensitive).overriddenBy
        (constants.fold caseSensitive)).fold caseSensitive, functions, registry⟩ name := by
  have hnodup := (bindConstants_eq_ok hbound).2
  have hcanonical : ∀ other ∈
      ((vars.fold caseSensitive).overriddenBy (constants.fold caseSensitive)).names,
      canonical caseSensitive other = other := by
    intro other hmem
    exact (Variables.mem_names_overriddenBy hmem).elim Variables.canonical_of_mem_names_fold
      Variables.canonical_of_mem_names_fold
  have hdistinct : caseSensitive = false →
      ((vars.fold caseSensitive).overriddenBy (constants.fold caseSensitive)).names.Nodup := by
    rintro rfl
    exact Variables.names_overriddenBy (Variables.names_ofList _).1 _
  have hfind : (((vars.fold caseSensitive).overriddenBy
      (constants.fold caseSensitive)).fold caseSensitive).find? name =
      ((bound.find? name).map Entry.content).or ((vars.fold caseSensitive).find? name) := by
    rw [Variables.find?_fold_of_canonical hcanonical hdistinct,
      Variables.find?_overriddenBy _ hnodup, find?_bound hbound hname]
  rw [mode.lookup_of_find? hfind, Lookup.after]
  cases bound.find? name <;> rfl

namespace Engine

/-! ## Builds -/

/-- The result of a build, either a formula that was prepared, or a failure to
prepare it. -/
def Prepares (options : Options) (functions : Functions) (text : String) (bound : Constants)
    (result : Except Failure Formula) : Prop :=
  match result with
  | .ok formula => IsPrepared options functions text bound formula
  | .error failure => prepare options functions text bound = .error failure

/-- The first build is the second one for certain constants: both fail, or the
first formula gives for all variables what the second one gives when the
constants override them.  The functions and the constants of the engine may be
later ones. -/
def Specializes (caseSensitive : Bool) (functions : Functions) (constants : Variables)
    (first second : Except Failure Formula) : Prop :=
  first.isOk = second.isOk ∧
    ∀ formula formula', first = .ok formula → second = .ok formula' →
      ∀ later registry vars, Registry.Keeps functions later →
        formula.call later registry vars =
          formula'.call later registry
            ((vars.fold caseSensitive).overriddenBy (constants.fold caseSensitive))

/-- Without optimizer, a text can be prepared with bound constants exactly if
it can be without them, and the trees differ by the substitution. -/
theorem prepare_substitute {options : Options} (hoptimizer : options.optimizerEnabled = false)
    (functions : Functions) (text : String) {bound : Constants}
    (hpolicy : bound.caseSensitive = options.caseSensitive) :
    (∃ failure failure', prepare options functions text bound = .error failure ∧
        prepare options functions text (.empty options.caseSensitive) = .error failure') ∨
      ∃ tree executable executable', tree.Resolved functions options.caseSensitive ∧
        prepare options functions text bound = .ok executable ∧
        prepare options functions text (.empty options.caseSensitive) = .ok executable' ∧
        Executable.ofTree options.executionMode functions (tree.substitute bound) =
          .ok executable ∧
        Executable.ofTree options.executionMode functions tree = .ok executable' := by
  have hsimplified : ∀ tree, simplified options functions tree = .ok tree :=
    fun tree => if_neg (by simp [hoptimizer])
  simp only [prepare, Tree.read, hsimplified]
  cases tokenize ⟨options.decimalSeparator⟩ text with
  | error e => exact .inl ⟨_, _, rfl, rfl⟩
  | ok tokens =>
    have hsubstitute := Tree.toOption_ofTokens hpolicy functions tokens
    dsimp only
    cases hplain : Tree.ofTokens ⟨functions, .empty options.caseSensitive, options.caseSensitive⟩
        tokens with
    | error e =>
      cases hother : Tree.ofTokens ⟨functions, bound, options.caseSensitive⟩ tokens with
      | error e' => exact .inl ⟨_, _, rfl, rfl⟩
      | ok tree =>
        rw [hplain, hother] at hsubstitute
        cases hsubstitute
    | ok tree =>
      cases hother : Tree.ofTokens ⟨functions, bound, options.caseSensitive⟩ tokens with
      | error e =>
        rw [hplain, hother] at hsubstitute
        cases hsubstitute
      | ok substituted =>
        rw [hplain, hother] at hsubstitute
        cases hsubstitute
        have hresolved := Tree.resolved_of_ofTokens hplain
        obtain ⟨executable, hexecutable⟩ := Executable.exists_ofTree options.executionMode
          (Tree.resolved_of_ofTokens hother).registered
        obtain ⟨executable', hexecutable'⟩ := Executable.exists_ofTree options.executionMode
          hresolved.registered
        dsimp only at hexecutable hexecutable' ⊢
        rw [hexecutable, hexecutable']
        exact .inr ⟨tree, executable, executable', hresolved, rfl, rfl, hexecutable, hexecutable'⟩

/-- Whatever is prepared with and without bound constants is so related. -/
theorem specializes_of_prepares {options : Options} (hoptimizer : options.optimizerEnabled = false)
    {functions : Functions} {text : String} {constants : Variables} {bound : Constants}
    (hbound : bindConstants options.caseSensitive constants = .ok bound)
    {first second : Except Failure Formula}
    (hfirst : Prepares options functions text bound first)
    (hsecond : Prepares options functions text (.empty options.caseSensitive) second) :
    Specializes options.caseSensitive functions constants first second := by
  have hpolicy : bound.caseSensitive = options.caseSensitive := by
    rw [(bindConstants_eq_ok hbound).1]
    rfl
  rcases prepare_substitute hoptimizer functions text hpolicy with
    ⟨failure, failure', hprepare, hprepare'⟩ |
    ⟨tree, executable, executable', hresolved, hprepare, hprepare', htree, htree'⟩
  · cases first with
    | ok formula => exact absurd (hprepare.symm.trans hfirst.1) nofun
    | error e =>
      cases second with
      | ok formula => exact absurd (hprepare'.symm.trans hsecond.1) nofun
      | error e' => exact ⟨rfl, nofun⟩
  · cases first with
    | error e => exact absurd (hprepare.symm.trans hfirst) nofun
    | ok formula =>
      cases second with
      | error e => exact absurd (hprepare'.symm.trans hsecond) nofun
      | ok formula' =>
        refine ⟨rfl, ?_⟩
        rintro _ _ ⟨⟩ ⟨⟩ later registry vars hkeeps
        rw [hfirst.1] at hprepare
        rw [hsecond.1] at hprepare'
        cases hprepare
        cases hprepare'
        rw [Formula.call, Formula.call, hfirst.2, hsecond.2,
          Executable.run_ofTree hkeeps htree, Executable.run_ofTree hkeeps htree',
          Tree.valueUnder_substitute]
        refine Tree.valueUnder_congr later tree fun name hname => ?_
        exact lookup_overriddenBy hbound _ _ _ _ (hresolved.canonical name hname)

/-! ## Requests -/

theorem isEmpty_of_cacheKey_eq {text : String} {bound : Constants}
    (h : cacheKey text bound = text) : bound.isEmpty = true := by
  cases hempty : bound.isEmpty with
  | true => rfl
  | false =>
    have hlength := congrArg List.length (@toList_cacheKey text bound hempty)
    rw [h, List.length_append, List.length_cons] at hlength
    omega

/-- A request for a formula prepares it, if what the cache holds under its key
was prepared alike. -/
theorem prepares_formula {engine : Engine} {text key : String} {bound : Constants}
    (hheld : ∀ formula, engine.cache.Holds key formula →
      IsPrepared engine.options engine.functions text bound formula) :
    Prepares engine.options engine.functions text bound (engine.formula text key bound).1 := by
  have hstep := formula_step engine text key bound
  generalize (engine.formula text key bound).1 = result,
    (engine.formula text key bound).2 = after at hstep
  cases hstep with
  | found held _ => exact hheld _ held
  | built prepared _ => exact ⟨prepared, rfl⟩
  | failed refused _ => exact refused

section

variable {engine : Engine} {text : String} {constants : Option Variables} {bound : Constants}
  (hnonblank : ¬isBlank text = true)
  (hbound : bindConstants engine.options.caseSensitive (constants.getD .empty) = .ok bound)

include hnonblank hbound

theorem prepares_build
    (hheld : ∀ formula, engine.cache.Holds (cacheKey text bound) formula →
      IsPrepared engine.options engine.functions text bound formula) :
    Prepares engine.options engine.functions text bound (engine.build text constants).1 := by
  rw [build_eq_formula hnonblank hbound]
  exact prepares_formula hheld

/-- After the first build the cache holds nothing but its formula. -/
theorem holds_after_build (hempty : engine.cache.slots = []) {key : String} {formula : Formula}
    (hholds : (engine.build text constants).2.cache.Holds key formula) :
    key = cacheKey text bound ∧
      IsPrepared engine.options engine.functions text bound formula := by
  have hnone : ∀ key formula, ¬engine.cache.Holds key formula := fun _ _ =>
    Cache.not_holds_of_slots_eq_nil hempty
  rw [build_eq_formula hnonblank hbound] at hholds
  have hstep := formula_step engine text (cacheKey text bound) bound
  generalize (engine.formula text (cacheKey text bound) bound).1 = result,
    (engine.formula text (cacheKey text bound) bound).2 = after at hstep hholds
  cases hstep with
  | found held _ => exact absurd held (hnone _ _)
  | built prepared oneNew =>
    rcases oneNew key formula hholds with hold | ⟨hkey, rfl⟩
    · exact absurd hold (hnone _ _)
    · exact ⟨hkey, prepared, rfl⟩
  | failed _ nothingNew => exact absurd (nothingNew key formula hholds) (hnone _ _)

/-- A second build on the same engine prepares its formula too.  It finds the
first one only if the constants of both are the same. -/
theorem prepares_second_build (hempty : engine.cache.slots = []) {constants' : Option Variables}
    {bound' : Constants}
    (hbound' : bindConstants engine.options.caseSensitive (constants'.getD .empty) = .ok bound')
    (hkeys : cacheKey text bound' = cacheKey text bound → bound' = bound) :
    Prepares engine.options engine.functions text bound'
      ((engine.build text constants).2.build text constants').1 := by
  have htables := (formula_step engine text (cacheKey text bound) bound).tables
  rw [← build_eq_formula hnonblank hbound] at htables
  obtain ⟨hoptions, hfunctions, _⟩ := htables
  rw [← hoptions] at hbound'
  have hprepares := prepares_build hnonblank hbound' fun formula hholds => by
    obtain ⟨hkey, hprepared⟩ := holds_after_build hnonblank hbound hempty hholds
    rw [hoptions, hfunctions, hkeys hkey]
    exact hprepared
  rwa [hoptions, hfunctions] at hprepares

end

/-- Binding constants is partial evaluation.  Without optimizer, and with an
empty cache at first, a text can be built with bound constants exactly if it
can be built without them.  In every call the first formula then gives what
the second one gives for variables that the constants override, names compared
under the case policy.  The two builds may be made on one engine, in either
order, and the calls may come after further registrations. -/
theorem binding_is_partial_evaluation (engine : Engine) (text : String) (constants : Variables)
    {bound : Constants} (hempty : engine.cache.slots = [])
    (hoptimizer : engine.options.optimizerEnabled = false)
    (hbound : bindConstants engine.options.caseSensitive constants = .ok bound) :
    let bindFirst := engine.build text (some constants)
    let plainFirst := engine.build text none
    let specializes := Specializes engine.options.caseSensitive engine.functions constants
    specializes bindFirst.1 plainFirst.1 ∧
      specializes bindFirst.1 (bindFirst.2.build text none).1 ∧
      specializes (plainFirst.2.build text (some constants)).1 plainFirst.1 := by
  intro bindFirst plainFirst specializes
  by_cases hblank : isBlank text = true
  · have hrefused : ∀ (engine : Engine) (constants : Option Variables),
        (engine.build text constants).1 = .error (.of text (.argument .blankFormula)) := by
      intro engine constants
      rw [build, if_pos hblank]
    have hboth : ∀ first second : Engine, ∀ bound plain : Option Variables,
        specializes (first.build text bound).1 (second.build text plain).1 := by
      intro first second bound plain
      rw [hrefused, hrefused]
      refine ⟨rfl, fun formula formula' hformula => ?_⟩
      cases hformula
    exact ⟨hboth _ _ _ _, hboth _ _ _ _, hboth _ _ _ _⟩
  · have hnone := bindConstants_empty engine.options.caseSensitive
    have hnothing : ∀ key formula, ¬engine.cache.Holds key formula := fun _ _ =>
      Cache.not_holds_of_slots_eq_nil hempty
    -- The second build finds the formula of the first one under the same key.
    have hkeys : cacheKey text bound = cacheKey text (.empty engine.options.caseSensitive) →
        bound = .empty engine.options.caseSensitive := fun hkey =>
      eq_empty_of_bindConstants hbound (isEmpty_of_cacheKey_eq hkey)
    have hfirst : Prepares engine.options engine.functions text bound bindFirst.1 :=
      prepares_build hblank hbound fun formula hholds => absurd hholds (hnothing _ _)
    have hsecond : Prepares engine.options engine.functions text
        (.empty engine.options.caseSensitive) plainFirst.1 :=
      prepares_build hblank hnone fun formula hholds => absurd hholds (hnothing _ _)
    refine ⟨specializes_of_prepares hoptimizer hbound hfirst hsecond,
      specializes_of_prepares hoptimizer hbound hfirst ?_,
      specializes_of_prepares hoptimizer hbound ?_ hsecond⟩
    · exact prepares_second_build hblank hbound hempty hnone fun hkey => (hkeys hkey.symm).symm
    · exact prepares_second_build hblank hnone hempty hbound hkeys

/-- An engine that leaves trees as they are, without functions and constants. -/
def unfolded : Engine :=
  .new { optimizerEnabled := false, defaultFunctions := false, defaultConstants := false } .zero

theorem exists_of_isOk {result : Except Failure Formula} (h : result.isOk = true) :
    ∃ formula, result = .ok formula := by
  cases result with
  | error failure => cases h
  | ok formula => exact ⟨formula, rfl⟩

theorem binding_is_partial_evaluation_of_trailing_zero :
    unfolded.cache.slots = [] ∧ unfolded.options.optimizerEnabled = false ∧
      bindConstants false trailingZero = .ok (boundTo false (trailingZero.fold false)) ∧
      ∃ formula formula', (unfolded.build "x + k" (some trailingZero)).1 = .ok formula ∧
        (unfolded.build "x + k" none).1 = .ok formula' ∧
        unfolded.call formula ⟨[("X", .ofInt64 2)]⟩ =
          unfolded.call formula'
            ⟨[("x", .ofInt64 2), ("k", ⟨false, 150, 2, by decide, by decide⟩)]⟩ ∧
        (unfolded.call formula ⟨[("X", .ofInt64 2)]⟩).toOption =
          some ⟨false, 350, 2, by decide, by decide⟩ := by
  obtain ⟨formula, hfirst⟩ : ∃ formula,
      (unfolded.build "x + k" (some trailingZero)).1 = .ok formula :=
    exists_of_isOk (by decide +kernel)
  obtain ⟨formula', hsecond⟩ : ∃ formula', (unfolded.build "x + k" none).1 = .ok formula' :=
    exists_of_isOk (by decide +kernel)
  have hagree := (binding_is_partial_evaluation unfolded "x + k" trailingZero rfl rfl rfl).1.2
    formula formula' hfirst hsecond _ unfolded.constants ⟨[("X", .ofInt64 2)]⟩ (.refl _)
  have hvalue : ((unfolded.build "x + k" (some trailingZero)).1.toOption.bind fun formula =>
      (unfolded.call formula ⟨[("X", .ofInt64 2)]⟩).toOption) =
        some ⟨false, 350, 2, by decide, by decide⟩ := by decide +kernel
  rw [hfirst] at hvalue
  exact ⟨rfl, rfl, rfl, formula, formula', hfirst, hsecond, hagree, hvalue⟩

end Engine

end FormulaEngine
