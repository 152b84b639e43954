import FormulaEngine.Proofs.Engine.Modes

/-!
# Failed requests leave no trace

A request for a formula opens a slot in the cache before it builds, and takes
the slot away if the build fails.  The clock of the cache has moved on by then,
so the engine is not the same as before, but no request can tell.

* `Engine.LooksLike`: all is the same but for the caches, which hold the same
  values and were used in the same order.
* `Session.LooksLike.answer`: sessions that look alike answer every request with
  the same reply and look alike after it; `LooksLike.answerAll` is the run.
* `Request.FailsEarly`: the calculations and builds that fail before there is a
  formula to call.  `FailsEarly.looksLike` is what they leave.

`failed_request_leaves_no_trace` is the result, for every run before the failed
request and every run after it.
-/

namespace FormulaEngine

open Text

theorem ResultsAlike.refl {V E : Type} (result : Except E V) :
    ResultsAlike (· = ·) result result := by
  cases result with
  | ok value => exact .ok rfl
  | error e => exact .error e

theorem ResultsAlike.eq {V E : Type} {result result' : Except E V}
    (h : ResultsAlike (· = ·) result result') : result' = result := by
  cases h with
  | ok hvalue => rw [hvalue]
  | error e => rfl

/-- A build that fails leaves the list alone. -/
theorem Recency.getOrAdd_of_error {V E : Type} {list : Recency V} {key : String}
    {built : Except E V} {e : E} (h : (list.getOrAdd key built).1.result = .error e) :
    list.getOrAdd key built = (⟨.error e, true⟩, list) ∧ built = .error e := by
  unfold getOrAdd at h ⊢
  cases hfind : list.find? key with
  | some value =>
    rw [hfind] at h
    cases h
  | none =>
    rw [hfind] at h
    cases built with
    | ok value => cases h
    | error e' =>
      cases h
      exact ⟨rfl, rfl⟩

namespace Engine

/-! ## Engines that look alike -/

/-- Engines that differ in nothing but when the slots of their caches were
installed and used. -/
structure LooksLike (engine other : Engine) : Prop where
  same : other = { engine with cache := other.cache }
  cache : engine.cache.Alike (· = ·) other.cache

theorem looksLike_new (options : Options) (draw : Decimal) :
    (new options draw).LooksLike (new options draw) :=
  ⟨rfl, Cache.alike_new _ _ _⟩

namespace LooksLike

variable {engine other : Engine} (h : engine.LooksLike other)

include h

theorem tables : other.options = engine.options ∧ other.functions = engine.functions ∧
    other.constants = engine.constants := by
  rw [h.same]
  exact ⟨rfl, rfl, rfl⟩

theorem formula (text key : String) (bound : Constants) :
    (other.formula text key bound).1 = (engine.formula text key bound).1 ∧
      (engine.formula text key bound).2.LooksLike (other.formula text key bound).2 := by
  obtain ⟨hsame, hcache⟩ := h
  generalize other.cache = cache at hsame hcache
  subst hsame
  obtain ⟨builds, hconstruct⟩ := construct_eq engine text bound
  generalize (prepare engine.options engine.functions text bound).map _ = result at hconstruct
  cases henabled : engine.options.cacheEnabled with
  | false =>
    rw [Engine.formula, Engine.formula, if_neg (by simp [henabled]), if_neg (by simp [henabled]),
      construct_withCache, hconstruct]
    exact ⟨rfl, rfl, hcache⟩
  | true =>
    obtain ⟨hresult, hran, hafter⟩ := hcache.getOrAdd key (.refl result)
    rw [formula_of_cacheEnabled henabled, formula_of_cacheEnabled (by exact henabled),
      construct_withCache, hconstruct]
    refine ⟨hresult.eq, ?_⟩
    dsimp only
    rw [hran]
    split <;> exact ⟨rfl, hafter⟩

theorem calculate (text : String) (vars : Variables) :
    (other.calculate text vars).1 = (engine.calculate text vars).1 ∧
      (engine.calculate text vars).2.LooksLike (other.calculate text vars).2 := by
  obtain ⟨hsame, hcache⟩ := h
  obtain ⟨hformula, hafter⟩ :=
    LooksLike.formula ⟨hsame, hcache⟩ text text (.empty engine.options.caseSensitive)
  generalize other.cache = cache at hsame hcache
  subst hsame
  have haccept : { engine with cache := cache }.acceptVariables vars =
      engine.acceptVariables vars := by
    refine acceptVariables_congr ?_ ?_ ?_ vars <;> rfl
  rw [calculate_eq, calculate_eq, haccept]
  split
  · exact ⟨rfl, rfl, hcache⟩
  · cases engine.acceptVariables vars with
    | error e => exact ⟨rfl, rfl, hcache⟩
    | ok accepted =>
      dsimp only
      rw [textFormula, textFormula, hformula]
      exact ⟨rfl, hafter⟩

theorem build (text : String) (constants : Option Variables) :
    (other.build text constants).1 = (engine.build text constants).1 ∧
      (engine.build text constants).2.LooksLike (other.build text constants).2 := by
  rw [Engine.build, Engine.build, h.tables.1]
  split
  · exact ⟨rfl, h⟩
  · split
    · exact ⟨rfl, h⟩
    · exact h.formula _ _ _

end LooksLike

/-! ## Failures -/

section Failures

variable {engine : Engine} (h : engine.LooksLike engine) {text : String} {failure : Failure}

include h

/-- A request for a formula that fails leaves an engine that looks the same. -/
theorem looksLike_of_formula_error {key : String} {bound : Constants}
    (herror : (engine.formula text key bound).1 = .error failure) :
    engine.LooksLike (engine.formula text key bound).2 := by
  cases henabled : engine.options.cacheEnabled with
  | false =>
    rw [Engine.formula, if_neg (by simp [henabled])] at herror ⊢
    rcases construct_cases engine text bound with ⟨_, _, hconstruct⟩ | ⟨_, _, _, hconstruct⟩
    · rw [hconstruct]
      exact h
    · rw [hconstruct] at herror
      cases herror
  | true =>
    obtain ⟨list, _, hrefines, _⟩ := h.cache
    obtain ⟨hadded, hafter⟩ := hrefines.getOrAdd key (engine.construct text bound).1
    rw [formula_of_cacheEnabled henabled] at herror ⊢
    dsimp only at herror ⊢
    rw [hadded] at herror ⊢
    -- The slot that was opened is gone: the cache stands for the same list.
    obtain ⟨hlist, hbuilt⟩ := Recency.getOrAdd_of_error herror
    rw [hlist] at hafter ⊢
    have hconstruct : (engine.construct text bound).2 = engine := by
      rcases construct_cases engine text bound with ⟨_, _, hconstruct⟩ | ⟨_, _, _, hconstruct⟩
      · rw [hconstruct]
      · rw [hconstruct] at hbuilt
        cases hbuilt
    rw [if_pos rfl, hconstruct]
    exact ⟨rfl, list, list, hrefines, hafter, rfl, rfl, List.forall₂_same.mpr fun _ _ => ⟨rfl, rfl⟩⟩

theorem looksLike_of_calculate_error {vars : Variables}
    (herror : (engine.calculate text vars).1 = .error failure)
    (hearly : (∀ e, failure.cause ≠ .evaluation e) ∨
      (engine.textFormula text).1 = .error failure) :
    engine.LooksLike (engine.calculate text vars).2 := by
  rw [calculate_eq] at herror ⊢
  by_cases hblank : isBlank text = true
  · rw [if_pos hblank]
    exact h
  · rw [if_neg hblank] at herror ⊢
    cases haccept : engine.acceptVariables vars with
    | error e => exact h
    | ok accepted =>
      rw [haccept] at herror
      dsimp only at herror ⊢
      cases hformula : (engine.textFormula text).1 with
      | error failure' => exact looksLike_of_formula_error h hformula
      | ok formula =>
        -- There is a formula, so the failure is that of its call.
        rw [hformula] at herror hearly
        rw [valueOf] at herror
        split at herror
        · rename_i e _
          cases herror
          rcases hearly with hcause | hbuilt
          · exact absurd rfl (hcause e)
          · cases hbuilt
        · cases herror

theorem looksLike_of_build_error {constants : Option Variables}
    (herror : (engine.build text constants).1 = .error failure) :
    engine.LooksLike (engine.build text constants).2 := by
  rw [Engine.build] at herror ⊢
  by_cases hblank : isBlank text = true
  · rw [if_pos hblank]
    exact h
  · rw [if_neg hblank] at herror ⊢
    cases hbound : bindConstants engine.options.caseSensitive (constants.getD .empty) with
    | error e => exact h
    | ok bound =>
      rw [hbound] at herror
      exact looksLike_of_formula_error h herror

end Failures

end Engine

/-! ## Sessions that look alike -/

namespace Session

/-- The engines look alike, and the same formulas are kept. -/
structure LooksLike (session other : Session) : Prop where
  engine : session.engine.LooksLike other.engine
  formulas : other.formulas = session.formulas

namespace LooksLike

variable {session other : Session} (h : session.LooksLike other)

include h

theorem build (text : String) (constants : Option Variables) (keptAs : String) :
    (other.answer (.build text constants keptAs)).1 =
        (session.answer (.build text constants keptAs)).1 ∧
      (session.answer (.build text constants keptAs)).2.LooksLike
        (other.answer (.build text constants keptAs)).2 := by
  obtain ⟨hresult, hafter⟩ := h.engine.build text constants
  rw [Session.answer, Session.answer, h.formulas]
  generalize session.engine.build text constants = outcome,
    other.engine.build text constants = outcome' at hresult hafter ⊢
  obtain ⟨result, engine⟩ := outcome
  obtain ⟨result', engine'⟩ := outcome'
  dsimp only at hresult
  subst hresult
  cases result' with
  | error failure => exact ⟨rfl, hafter, rfl⟩
  | ok formula => exact ⟨rfl, hafter, rfl⟩

/-- Sessions that look alike answer a request with the same reply, and look
alike after it. -/
theorem answer (request : Request) :
    (other.answer request).1 = (session.answer request).1 ∧
      (session.answer request).2.LooksLike (other.answer request).2 := by
  cases request with
  | calculate text vars =>
    obtain ⟨hvalue, hafter⟩ := h.engine.calculate text vars
    rw [Session.answer, Session.answer]
    dsimp only
    rw [hvalue]
    exact ⟨rfl, hafter, h.formulas⟩
  | build text constants keptAs => exact h.build text constants keptAs
  | call kept vars =>
    have hcall (formula : Formula) : other.engine.call formula vars =
        session.engine.call formula vars := by
      obtain ⟨_, hfunctions, hconstants⟩ := h.engine.tables
      rw [Engine.call, Engine.call, hfunctions, hconstants]
    rw [Session.answer, Session.answer, h.formulas]
    cases session.formulas.lookup kept with
    | none => exact ⟨rfl, h⟩
    | some formula =>
      dsimp only
      rw [hcall]
      exact ⟨rfl, h⟩
  | registerFunction name function isOverwritable =>
    obtain ⟨⟨hsame, hcache⟩, hformulas⟩ := h
    rw [Session.answer, Session.answer, hsame, Engine.registerFunction, Engine.registerFunction]
    cases session.engine.functions.register name function isOverwritable with
    | error e => exact ⟨rfl, ⟨hsame, hcache⟩, hformulas⟩
    | ok functions => exact ⟨rfl, ⟨rfl, hcache⟩, hformulas⟩
  | registerConstant name value isOverwritable =>
    obtain ⟨⟨hsame, hcache⟩, hformulas⟩ := h
    rw [Session.answer, Session.answer, hsame, Engine.registerConstant, Engine.registerConstant]
    cases session.engine.constants.register name value isOverwritable with
    | error e => exact ⟨rfl, ⟨hsame, hcache⟩, hformulas⟩
    | ok constants => exact ⟨rfl, ⟨rfl, hcache⟩, hformulas⟩
  | cacheGet key =>
    obtain ⟨hsome, hafter⟩ := h.engine.cache.get key
    rw [Session.answer, Session.answer]
    dsimp only
    rw [hsome, h.engine.same]
    exact ⟨rfl, ⟨rfl, hafter⟩, h.formulas⟩
  | cacheContains key =>
    have hview := congrArg CacheView.contains h.engine.cache.view_eq
    rw [Session.answer, Session.answer]
    dsimp only
    rw [show other.engine.cache.contains = session.engine.cache.contains from hview]
    exact ⟨rfl, h⟩
  | cacheClear =>
    rw [Session.answer, Session.answer]
    dsimp only
    rw [h.engine.same]
    exact ⟨rfl, ⟨rfl, h.engine.cache.clear⟩, h.formulas⟩

/-- Sessions that look alike answer a run of requests with the same replies. -/
theorem answerAll (requests : List Request) :
    (other.answerAll requests).1 = (session.answerAll requests).1 ∧
      (session.answerAll requests).2.LooksLike (other.answerAll requests).2 := by
  induction requests generalizing session other with
  | nil => exact ⟨rfl, h⟩
  | cons request requests ih =>
    obtain ⟨hreply, hafter⟩ := h.answer request
    obtain ⟨hreplies, hlast⟩ := ih hafter
    rw [Session.answerAll, Session.answerAll]
    dsimp only
    rw [hreply, hreplies]
    exact ⟨rfl, hlast⟩

end LooksLike

end Session

/-! ## Failed requests -/

/-- The request is a calculation or a build that fails before there is a formula
to call: it is refused for its arguments, its text is no formula, or a constant
part of the text has no value. -/
def Request.FailsEarly (engine : Engine) : Request → Prop
  | .calculate text vars => ∃ failure, (engine.calculate text vars).1 = .error failure ∧
      ((∀ e, failure.cause ≠ .evaluation e) ∨ (engine.textFormula text).1 = .error failure)
  | .build text constants _ => ∃ failure, (engine.build text constants).1 = .error failure
  | _ => False

namespace Session

/-- After an early failure the session looks as before. -/
theorem looksLike_of_failsEarly {session : Session} (h : session.LooksLike session)
    {request : Request} (hfails : request.FailsEarly session.engine) :
    session.LooksLike (session.answer request).2 := by
  cases request with
  | calculate text vars =>
    obtain ⟨failure, herror, hearly⟩ := hfails
    exact ⟨Engine.looksLike_of_calculate_error h.engine herror hearly, rfl⟩
  | build text constants keptAs =>
    obtain ⟨failure, herror⟩ := hfails
    have hengine := Engine.looksLike_of_build_error h.engine herror
    rw [answer]
    generalize session.engine.build text constants = outcome at herror hengine
    obtain ⟨result, after⟩ := outcome
    dsimp only at herror
    subst herror
    exact ⟨hengine, rfl⟩
  | call _ _ | registerFunction _ _ _ | registerConstant _ _ _ | cacheGet _ | cacheContains _
  | cacheClear => cases hfails

/-- A failed request leaves no trace.  In any state that a run can reach, a
calculation or a build may fail with a lexical error, a parse error, a refused
argument, or an evaluation error while the formula is built.  Any run of
requests after it is answered as if it had not been made, and ends with the same
functions, the same constants, the same kept formulas and the same keys in the
cache. -/
theorem failed_request_leaves_no_trace (options : Options) (draw : Decimal)
    (before : List Request) (request : Request) (later : List Request) :
    let session := ((new options draw).answerAll before).2
    request.FailsEarly session.engine →
      let expected := session.answerAll later
      let actual := (session.answer request).2.answerAll later
      actual.1 = expected.1 ∧ actual.2.formulas = expected.2.formulas ∧
        actual.2.engine.functions = expected.2.engine.functions ∧
        actual.2.engine.constants = expected.2.engine.constants ∧
        actual.2.engine.cache.view = expected.2.engine.cache.view := by
  intro session hfails expected actual
  have hnew : (new options draw).LooksLike (new options draw) :=
    ⟨Engine.looksLike_new options draw, rfl⟩
  have hsession : session.LooksLike session := (hnew.answerAll before).2
  obtain ⟨hreplies, hlast⟩ := (looksLike_of_failsEarly hsession hfails).answerAll later
  obtain ⟨_, hfunctions, hconstants⟩ := hlast.engine.tables
  exact ⟨hreplies, hlast.formulas, hfunctions, hconstants, hlast.engine.cache.view_eq⟩

/-- An engine whose cache has room for three formulas. -/
def roomForThree : Options :=
  { cacheMaximumSize := 3, cacheReductionSize := 1, defaultFunctions := false,
    defaultConstants := false }

/-- The cache is full. -/
def threeTexts : List Request :=
  [.calculate "1" .empty, .calculate "2" .empty, .calculate "3" .empty]

/-- The oldest formula is used again, and a fourth one drops the other two. -/
def useAndDrop : List Request := [.calculate "1" .empty, .calculate "4" .empty]

theorem failed_request_leaves_no_trace_of_folded_division :
    let session := ((new roomForThree .zero).answerAll threeTexts).2
    let request := Request.calculate "x + 1 / 0" ⟨[("x", .one)]⟩
    let actual := (session.answer request).2.answerAll useAndDrop
    request.FailsEarly session.engine ∧
      actual.1 = (session.answerAll useAndDrop).1 ∧
      actual.2.engine.cache.view = (session.answerAll useAndDrop).2.engine.cache.view ∧
      (session.answer request).2.engine.cache.builtKeys = ["1", "2", "3"] := by
  intro session request actual
  have hfails : request.FailsEarly session.engine := by
    have herror : (session.engine.textFormula "x + 1 / 0").1.isOk = false := by decide +kernel
    have haccept : (session.engine.acceptVariables ⟨[("x", .one)]⟩).isOk = true := by
      decide +kernel
    cases hformula : (session.engine.textFormula "x + 1 / 0").1 with
    | ok formula =>
      rw [hformula] at herror
      cases herror
    | error failure =>
      cases haccepted : session.engine.acceptVariables ⟨[("x", .one)]⟩ with
      | error e =>
        rw [haccepted] at haccept
        cases haccept
      | ok accepted =>
        refine ⟨failure, ?_, .inr hformula⟩
        rw [Engine.calculate_eq, if_neg (by decide), haccepted, hformula]
        rfl
  obtain ⟨hreplies, _, _, _, hview⟩ :=
    failed_request_leaves_no_trace roomForThree .zero threeTexts request useAndDrop hfails
  exact ⟨hfails, hreplies, hview, by decide +kernel⟩

end Session

end FormulaEngine
