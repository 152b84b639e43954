import FormulaEngine.Proofs.Engine.CacheKey
import FormulaEngine.Proofs.Engine.Requests

/-!
# The cache changes no answer

Two engines answer the same run of requests, one with its cache and one
without.  While no functions are registered, and as long as keys can be read
back, their answers are the same.

* `CacheIsFaithful` is the invariant of the engine with the cache: every
  formula that it holds was prepared from a text and constants behind its
  key.  `CacheIsFaithful.step` is one request.
* `IsTwin` relates the two engines: they share functions and constants, and
  all options but one.  `IsTwin.step` is one request.
* `AnswersLike` is what follows for the answers, and `answers_without_cache`
  states it after any run.

A build with constants may find the formula of numerically equal constants,
written with another number of zeros.
-/

namespace FormulaEngine

open Text

/-! ## Requests with readable keys -/

/-- A request that registers no function, and has a plain text and plain
names. -/
def Request.IsPlain : Request → Prop
  | .calculate text _ => Engine.IsPlainText text
  | .build text constants _ =>
    Engine.IsPlainText text ∧ Engine.HasPlainNames (constants.getD .empty)
  | .registerFunction _ _ _ => False
  | _ => True

instance : ∀ request : Request, Decidable request.IsPlain
  | .calculate _ _ => inferInstanceAs (Decidable (Engine.IsPlainText _))
  | .build _ _ _ => inferInstanceAs (Decidable (_ ∧ _))
  | .registerFunction _ _ _ => inferInstanceAs (Decidable False)
  | .call _ _ | .registerConstant _ _ _ | .cacheGet _ | .cacheContains _ | .cacheClear =>
    inferInstanceAs (Decidable True)

theorem Request.IsPlain.functionsAfter {request : Request} (h : request.IsPlain)
    (functions : Functions) : request.functionsAfter functions = functions := by
  cases request with
  | registerFunction name function isOverwritable => exact h.elim
  | calculate _ _ | build _ _ _ | call _ _ | registerConstant _ _ _ | cacheGet _
  | cacheContains _ | cacheClear => rfl

namespace Engine

theorem bindConstants_empty (caseSensitive : Bool) :
    bindConstants caseSensitive .empty = .ok (.empty caseSensitive) := by
  cases caseSensitive <;> rfl

/-- What a plain request asks for comes from plain constants. -/
theorem exists_of_asks {request : Request} (hplain : request.IsPlain) {caseSensitive : Bool}
    {text : String} {bound : Constants} (h : request.Asks caseSensitive text bound) :
    IsPlainText text ∧ ∃ constants, HasPlainNames constants ∧
      bindConstants caseSensitive constants = .ok bound := by
  cases request with
  | calculate asked vars =>
    obtain ⟨rfl, rfl⟩ := h
    exact ⟨hplain, .empty, hasPlainNames_empty, bindConstants_empty caseSensitive⟩
  | build asked constants keptAs =>
    obtain ⟨rfl, hbound⟩ := h
    exact ⟨hplain.1, _, hplain.2, hbound⟩
  | call _ _ | registerFunction _ _ _ | registerConstant _ _ _ | cacheGet _
  | cacheContains _ | cacheClear => exact h.elim

/-! ## Faithful caches -/

/-- Every formula in the cache was prepared from a plain text and plain
constants that have its key. -/
def CacheIsFaithful (engine : Engine) : Prop :=
  ∀ key formula, engine.cache.Holds key formula →
    ∃ text constants bound, IsPlainText text ∧ HasPlainNames constants ∧
      bindConstants engine.options.caseSensitive constants = .ok bound ∧
      key = cacheKey text bound ∧
      IsPrepared engine.options engine.functions text bound formula

theorem CacheIsFaithful.of_slots_eq_nil {engine : Engine} (h : engine.cache.slots = []) :
    engine.CacheIsFaithful :=
  fun _ _ hholds => absurd hholds (Cache.not_holds_of_slots_eq_nil h)

/-- A plain request keeps a cache faithful. -/
theorem CacheIsFaithful.step {request : Request} {before after : Engine}
    (h : before.CacheIsFaithful) (hplain : request.IsPlain)
    (hstep : RequestStep request before after) : after.CacheIsFaithful := by
  intro key formula hholds
  rw [hstep.options, hstep.functions, hplain.functionsAfter]
  rcases hstep.oneNew key formula hholds with hold | ⟨text, bound, hasks, hkey, hprepared⟩
  · exact h key formula hold
  · obtain ⟨htext, constants, hnames, hbound⟩ := exists_of_asks hplain hasks
    exact ⟨text, constants, bound, htext, hnames, hbound, hkey, hprepared⟩

theorem SameNumbers.refl (vars : Variables) : SameNumbers vars vars := by
  intro name
  cases vars.find? name with
  | none => exact .none
  | some value => exact .some (decide_eq_true rfl)

/-- With a faithful cache, the formula of a request was prepared from its
text and the same constants, up to the form of their numbers. -/
theorem CacheIsFaithful.exists_of_formula {engine : Engine} (h : engine.CacheIsFaithful)
    {text : String} {constants : Variables} {bound : Constants} {formula : Formula}
    (htext : IsPlainText text) (hnames : HasPlainNames constants)
    (hbound : bindConstants engine.options.caseSensitive constants = .ok bound)
    (hformula : (engine.formula text (cacheKey text bound) bound).1 = .ok formula) :
    ∃ constants' bound',
      SameNumbers (constants.fold engine.options.caseSensitive)
        (constants'.fold engine.options.caseSensitive) ∧
      bindConstants engine.options.caseSensitive constants' = .ok bound' ∧
      IsPrepared engine.options engine.functions text bound' formula := by
  have hstep := formula_step engine text (cacheKey text bound) bound
  rw [hformula] at hstep
  generalize (engine.formula text (cacheKey text bound) bound).2 = after at hstep
  cases hstep with
  | found held _ =>
    obtain ⟨text', constants', bound', htext', hnames', hbound', hkey, hprepared⟩ :=
      h _ _ held
    obtain ⟨rfl, hsame⟩ := (cacheKey_eq_iff hbound hbound' htext htext' hnames hnames').mp hkey
    exact ⟨constants', bound', hsame, hbound', hprepared⟩
  | built prepared _ => exact ⟨constants, bound, .refl _, hbound, prepared, rfl⟩

/-- A request for a formula fails only if the formula cannot be prepared. -/
theorem prepare_of_formula_error {engine : Engine} {text key : String} {bound : Constants}
    {failure : Failure} (h : (engine.formula text key bound).1 = .error failure) :
    prepare engine.options engine.functions text bound = .error failure := by
  have hstep := formula_step engine text key bound
  rw [h] at hstep
  generalize (engine.formula text key bound).2 = after at hstep
  cases hstep with
  | failed refused _ => exact refused

/-! ## Engines with and without cache -/

/-- The engine with its cache switched off. -/
def withoutCache (engine : Engine) : Engine :=
  { engine with options := { engine.options with cacheEnabled := false } }

/-- The engine and one without cache that has the same functions and
constants. -/
structure IsTwin (engine twin : Engine) : Prop where
  options : twin.options = { engine.options with cacheEnabled := false }
  functions : twin.functions = engine.functions
  constants : twin.constants = engine.constants

theorem IsTwin.withoutCache (engine : Engine) : IsTwin engine engine.withoutCache :=
  ⟨rfl, rfl, rfl⟩

/-- The same request keeps twins twins, whatever their caches hold. -/
theorem IsTwin.step {request : Request} {before after twin twinAfter : Engine}
    (h : IsTwin before twin) (hstep : RequestStep request before after)
    (htwin : RequestStep request twin twinAfter) : IsTwin after twinAfter := by
  refine ⟨?_, ?_, ?_⟩
  · rw [htwin.options, h.options, hstep.options]
  · rw [htwin.functions, h.functions, hstep.functions]
  · rw [htwin.constants, h.constants, hstep.constants]

theorem checkNames_congr {engine other : Engine} (hfunctions : other.functions = engine.functions)
    (hconstants : other.constants = engine.constants) (names : List String) :
    other.checkNames names = engine.checkNames names := by
  induction names with
  | nil => rfl
  | cons name names ih =>
    rw [checkNames, checkNames, checkName, checkName, hfunctions, hconstants, ih]

/-- Which variables are accepted depends on the policy and the tables. -/
theorem acceptVariables_congr {engine other : Engine}
    (hpolicy : other.options.caseSensitive = engine.options.caseSensitive)
    (hfunctions : other.functions = engine.functions)
    (hconstants : other.constants = engine.constants) (vars : Variables) :
    other.acceptVariables vars = engine.acceptVariables vars := by
  rw [acceptVariables, acceptVariables, hpolicy, hconstants]
  dsimp only
  rw [checkNames_congr hfunctions hconstants]

/-- Twins accept the same variables. -/
theorem IsTwin.acceptVariables {engine twin : Engine} (h : IsTwin engine twin)
    (vars : Variables) : twin.acceptVariables vars = engine.acceptVariables vars :=
  acceptVariables_congr (by rw [h.options]) h.functions h.constants vars

/-- The twin prepares every formula that it is asked for. -/
theorem IsTwin.formula {engine twin : Engine} (h : IsTwin engine twin) (text key : String)
    (bound : Constants) :
    (twin.formula text key bound).1 =
      (prepare engine.options engine.functions text bound).map
        fun executable => ⟨twin.builds, engine.options.caseSensitive, executable⟩ := by
  rw [formula_of_cacheDisabled (by rw [h.options]), h.functions, h.options]
  rfl

/-! ## Answers -/

end Engine

/-- Two formulas that give the same value in every call. -/
def Formula.BehavesLike (formula other : Formula) : Prop :=
  ∀ functions constants vars,
    formula.call functions constants vars = other.call functions constants vars

namespace Engine

/-- The same failure, or formulas that behave alike. -/
inductive SameBuild : Except Failure Formula → Except Failure Formula → Prop where
  | error (failure : Failure) : SameBuild (.error failure) (.error failure)
  | ok {formula other : Formula} (h : formula.BehavesLike other) :
    SameBuild (.ok formula) (.ok other)

theorem SameBuild.refl (result : Except Failure Formula) : SameBuild result result := by
  cases result with
  | error failure => exact .error failure
  | ok formula => exact .ok fun _ _ _ => rfl

/-- What an engine without cache answers is what the engine answers. -/
structure AnswersLike (engine twin : Engine) : Prop where
  calculate : ∀ text vars, IsPlainText text →
    (engine.calculate text vars).1 = (twin.calculate text vars).1
  build : ∀ text, IsPlainText text → SameBuild (engine.build text none).1 (twin.build text none).1
  buildFails : ∀ text constants failure, IsPlainText text → HasPlainNames constants →
    (engine.build text (some constants)).1 = .error failure →
      (twin.build text (some constants)).1 = .error failure
  buildGives : ∀ text constants formula, IsPlainText text → HasPlainNames constants →
    (engine.build text (some constants)).1 = .ok formula →
      ∃ constants' formula',
        SameNumbers (constants.fold engine.options.caseSensitive)
          (constants'.fold engine.options.caseSensitive) ∧
        (twin.build text (some constants')).1 = .ok formula' ∧ formula.BehavesLike formula'

theorem behavesLike_of_isPrepared {options : Options} {functions : Functions} {text : String}
    {bound : Constants} {formula : Formula} {executable : Executable} {number : Nat}
    (hprepared : IsPrepared options functions text bound formula)
    (hexecutable : prepare options functions text bound = .ok executable) :
    formula.BehavesLike ⟨number, options.caseSensitive, executable⟩ := by
  obtain ⟨hprepare, hpolicy⟩ := hprepared
  have hsame : formula.executable = executable := by
    rw [hprepare] at hexecutable
    cases hexecutable
    rfl
  intro functions constants vars
  rw [Formula.call, Formula.call, hpolicy, hsame]

/-- Constants with the same numbers as none are none. -/
theorem eq_empty_of_sameNumbers {caseSensitive : Bool} {constants : Variables}
    {bound : Constants} (hbound : bindConstants caseSensitive constants = .ok bound)
    (h : SameNumbers (Variables.empty.fold caseSensitive) (constants.fold caseSensitive)) :
    bound = .empty caseSensitive := by
  obtain ⟨rfl, hnodup⟩ := bindConstants_eq_ok hbound
  have hnone : (constants.fold caseSensitive).bindings = [] := by
    rw [List.eq_nil_iff_forall_not_mem]
    rintro ⟨name, value⟩ hmem
    have hsome := (Variables.find?_eq_some_iff_mem hnodup).mpr hmem
    have hfree : (Variables.empty.fold caseSensitive).find? name = none := by
      cases caseSensitive <;> rfl
    have hrel := h name
    rw [hsome, hfree] at hrel
    cases hrel
  rw [boundTo, hnone]
  rfl

section

variable {engine twin : Engine}

/-- A formula that was prepared as it would be now behaves like that of the
twin. -/
theorem sameBuild_formula (htwin : IsTwin engine twin) {text key : String} {bound : Constants}
    (hprepared : ∀ formula, (engine.formula text key bound).1 = .ok formula →
      IsPrepared engine.options engine.functions text bound formula) :
    SameBuild (engine.formula text key bound).1 (twin.formula text key bound).1 := by
  rw [htwin.formula]
  cases hformula : (engine.formula text key bound).1 with
  | error failure =>
    rw [prepare_of_formula_error hformula]
    exact .error failure
  | ok formula =>
    have hformula := hprepared formula hformula
    rw [hformula.1]
    exact .ok (behavesLike_of_isPrepared hformula hformula.1)

/-- Without bound constants the formula behaves like that of the twin. -/
theorem sameBuild_textFormula (hfaithful : engine.CacheIsFaithful) (htwin : IsTwin engine twin)
    {text : String} (htext : IsPlainText text) :
    SameBuild (engine.textFormula text).1 (twin.textFormula text).1 := by
  have hpolicy : twin.options.caseSensitive = engine.options.caseSensitive := by rw [htwin.options]
  rw [textFormula, textFormula, hpolicy]
  refine sameBuild_formula htwin fun formula hformula => ?_
  obtain ⟨constants', bound', hsame, hbound', hprepared⟩ :=
    hfaithful.exists_of_formula htext hasPlainNames_empty (bindConstants_empty _) hformula
  cases eq_empty_of_sameNumbers hbound' hsame
  exact hprepared

/-- Formulas that behave alike give the same value on engines with the same
tables. -/
theorem valueOf_of_sameBuild {other : Engine} (hfunctions : other.functions = engine.functions)
    (hconstants : other.constants = engine.constants) (text : String) (accepted : Variables)
    {result result' : Except Failure Formula} (h : SameBuild result result') :
    engine.valueOf text accepted result = other.valueOf text accepted result' := by
  cases h with
  | error failure => rfl
  | ok h => rw [valueOf, valueOf, call, call, hfunctions, hconstants, h]

/-- A calculation depends on the cache in its formula only. -/
theorem calculate_of_sameBuild (htwin : IsTwin engine twin) {text : String}
    (h : SameBuild (engine.textFormula text).1 (twin.textFormula text).1) (vars : Variables) :
    (engine.calculate text vars).1 = (twin.calculate text vars).1 := by
  rw [calculate_eq, calculate_eq, htwin.acceptVariables]
  split
  · rfl
  · cases engine.acceptVariables vars with
    | error e => rfl
    | ok accepted =>
      exact valueOf_of_sameBuild htwin.functions htwin.constants text accepted h

/-- With a faithful cache the answers are those of the twin. -/
theorem answersLike_of_faithful (hfaithful : engine.CacheIsFaithful) (htwin : IsTwin engine twin) :
    AnswersLike engine twin := by
  have hpolicy : twin.options.caseSensitive = engine.options.caseSensitive := by rw [htwin.options]
  constructor
  case calculate =>
    intro text vars htext
    exact calculate_of_sameBuild htwin (sameBuild_textFormula hfaithful htwin htext) vars
  case build =>
    intro text htext
    rw [build, build]
    split
    · exact .error _
    · rw [Option.getD_none, bindConstants_empty, bindConstants_empty]
      exact sameBuild_textFormula hfaithful htwin htext
  case buildFails =>
    intro text constants failure htext hnames h
    rw [build] at h ⊢
    split at h
    · rename_i hblank
      rw [if_pos hblank]
      exact h
    · rename_i hblank
      rw [if_neg hblank, hpolicy]
      split at h
      · exact h
      · rw [htwin.formula, prepare_of_formula_error h]
        rfl
  case buildGives =>
    intro text constants formula htext hnames h
    rw [build] at h
    split at h
    · cases h
    · rename_i hblank
      split at h
      · cases h
      · rename_i bound hbound
        obtain ⟨constants', bound', hsame, hbound', hprepared⟩ :=
          hfaithful.exists_of_formula htext hnames hbound h
        refine ⟨constants', ⟨twin.builds, engine.options.caseSensitive, formula.executable⟩,
          hsame, ?_, behavesLike_of_isPrepared hprepared hprepared.1⟩
        rw [build, if_neg hblank, hpolicy, Option.getD_some, hbound']
        dsimp only
        rw [htwin.formula, hprepared.1]
        rfl

end

end Engine

/-! ## Runs -/

namespace Session

/-- The session on the engine without cache. -/
def withoutCache (session : Session) : Session :=
  { session with engine := session.engine.withoutCache }

/-- A run of plain requests keeps the cache faithful and the engines twins. -/
theorem answerAll_twin {session other : Session} (requests : List Request)
    (hplain : ∀ request ∈ requests, request.IsPlain)
    (hfaithful : session.engine.CacheIsFaithful)
    (htwin : Engine.IsTwin session.engine other.engine) :
    (session.answerAll requests).2.engine.CacheIsFaithful ∧
      Engine.IsTwin (session.answerAll requests).2.engine
        (other.answerAll requests).2.engine := by
  induction requests generalizing session other with
  | nil => exact ⟨hfaithful, htwin⟩
  | cons request requests ih =>
    rw [List.forall_mem_cons] at hplain
    have hstep := session.answer_step request
    exact ih hplain.2 (hfaithful.step hplain.1 hstep)
      (htwin.step hstep (other.answer_step request))

/-- The cache changes no answer.  After any run of plain requests, an engine
that started with an empty cache answers like one without cache that went
through the same run.  Every request of a run is answered after the requests
before it, so this is said of all of them.  The sizes of the cache and what
they drop do not matter, nor do constants that are registered on the way. -/
theorem answers_without_cache (session : Session) (requests : List Request)
    (hempty : session.engine.cache.slots = [])
    (hplain : ∀ request ∈ requests, request.IsPlain) :
    Engine.AnswersLike (session.answerAll requests).2.engine
      (session.withoutCache.answerAll requests).2.engine := by
  obtain ⟨hfaithful, htwin⟩ :=
    @answerAll_twin session session.withoutCache requests hplain (.of_slots_eq_nil hempty)
      (.withoutCache session.engine)
  exact Engine.answersLike_of_faithful hfaithful htwin

/-- A session whose cache has room for one formula. -/
def tight : Session :=
  .new { cacheMaximumSize := 1, cacheReductionSize := 0, defaultFunctions := false,
         defaultConstants := false } .zero

/-- One text with and without constants, an engine constant of the same name
that changes on the way, and a failure. -/
def tightRun : List Request :=
  [.calculate "x + k" ⟨[("x", .one), ("k", .one)]⟩,
    .build "x + k" (some Engine.trailingZero) "f",
    .registerConstant "k" (.ofInt64 5) true, .calculate "x + k" ⟨[("x", .one)]⟩,
    .calculate "x + * k" .empty, .call "f" ⟨[("x", .one)]⟩,
    .registerConstant "K" (.ofInt64 2) true, .cacheContains "x + k@k:1.5"]

theorem answers_without_cache_of_tight :
    tight.engine.cache.slots = [] ∧ (∀ request ∈ tightRun, request.IsPlain) ∧
      Engine.AnswersLike (tight.answerAll tightRun).2.engine
        (tight.withoutCache.answerAll tightRun).2.engine ∧
      ((tight.answerAll tightRun).2.engine.calculate "x + k" ⟨[("x", .one)]⟩).1.toOption =
        some (.ofInt64 3) := by
  have hplain : ∀ request ∈ tightRun, request.IsPlain := by decide
  have hanswers := answers_without_cache tight tightRun rfl hplain
  refine ⟨rfl, hplain, hanswers, ?_⟩
  rw [hanswers.calculate "x + k" ⟨[("x", .one)]⟩ (by decide)]
  decide +kernel

end Session

end FormulaEngine
