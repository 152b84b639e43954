import FormulaEngine.Proofs.Engine.Building
import FormulaEngine.Proofs.Registry.History

/-!
# What a request does

A request of a session changes three things: the tables of functions and
constants, and the cache.

* The tables change by registrations only, as the registries do.
* A formula that the cache holds after a request was there before, or the
  request asked for it and it was just prepared, from the text and the
  constants behind its key.

`RequestStep` says this, and `Session.answer_step` is the proof for every
request.  `calculate_eq` splits a calculation into the part that depends on
the cache, which is the formula, and the part that does not.
-/

namespace FormulaEngine

open Text

namespace Engine

/-! ## Calculations and builds -/

theorem FormulaStep.tables {engine after : Engine} {text key : String} {bound : Constants}
    {result : Except Failure Formula} (h : FormulaStep engine text key bound result after) :
    after.options = engine.options ∧ after.functions = engine.functions ∧
      after.constants = engine.constants := by
  cases h <;> exact ⟨rfl, rfl, rfl⟩

/-- The answer of a calculation when its formula is known. -/
def valueOf (engine : Engine) (text : String) (accepted : Variables) :
    Except Failure Formula → Except Failure Decimal
  | .error failure => .error failure
  | .ok formula =>
    match engine.call formula accepted with
    | .error e => .error (.of text (.evaluation e))
    | .ok value => .ok value

/-- The formula that a text is evaluated with. -/
def textFormula (engine : Engine) (text : String) : Except Failure Formula × Engine :=
  engine.formula text text (.empty engine.options.caseSensitive)

theorem calculate_eq (engine : Engine) (text : String) (vars : Variables) :
    engine.calculate text vars =
      if isBlank text then (.error (.of text (.argument .blankFormula)), engine)
      else
        match engine.acceptVariables vars with
        | .error e => (.error (.of text (.argument e)), engine)
        | .ok accepted =>
          (engine.valueOf text accepted (engine.textFormula text).1,
            (engine.textFormula text).2) := by
  have htables := (formula_step engine text text (.empty engine.options.caseSensitive)).tables
  rw [calculate, textFormula]
  split
  · rfl
  · cases engine.acceptVariables vars with
    | error e => rfl
    | ok accepted =>
      dsimp only
      generalize engine.formula text text (.empty engine.options.caseSensitive) = outcome
        at htables ⊢
      obtain ⟨result, after⟩ := outcome
      cases result with
      | error failure => rfl
      | ok formula =>
        have hcall : after.call formula accepted = engine.call formula accepted := by
          rw [call, call, htables.2.1, htables.2.2]
        dsimp only [valueOf]
        rw [hcall]
        cases engine.call formula accepted <;> rfl

theorem build_eq_formula {engine : Engine} {text : String} {constants : Option Variables}
    {bound : Constants} (hnonblank : ¬isBlank text = true)
    (hbound : bindConstants engine.options.caseSensitive (constants.getD .empty) = .ok bound) :
    engine.build text constants = engine.formula text (cacheKey text bound) bound := by
  rw [build, if_neg hnonblank, hbound]

end Engine

/-! ## Tables -/

namespace Request

/-- The functions after a request.  A refused registration changes nothing. -/
def functionsAfter (functions : Functions) : Request → Functions
  | .registerFunction name function isOverwritable =>
    functions.accept ⟨name, function, isOverwritable⟩
  | _ => functions

/-- The constants after a request. -/
def constantsAfter (constants : Constants) : Request → Constants
  | .registerConstant name value isOverwritable =>
    constants.accept ⟨name, value, isOverwritable⟩
  | _ => constants

/-- The request asks for the formula of a text with bound constants. -/
def Asks (caseSensitive : Bool) (text : String) (bound : Constants) : Request → Prop
  | .calculate asked _ => asked = text ∧ bound = .empty caseSensitive
  | .build asked constants _ =>
    asked = text ∧ Engine.bindConstants caseSensitive (constants.getD .empty) = .ok bound
  | _ => False

end Request

/-- What one request does to the engine of a session. -/
structure RequestStep (request : Request) (before after : Engine) : Prop where
  options : after.options = before.options
  functions : after.functions = request.functionsAfter before.functions
  constants : after.constants = request.constantsAfter before.constants
  oneNew : ∀ key formula, after.cache.Holds key formula →
    before.cache.Holds key formula ∨
      ∃ text bound, request.Asks before.options.caseSensitive text bound ∧
        key = Engine.cacheKey text bound ∧
        Engine.IsPrepared before.options before.functions text bound formula

/-- A request that asks for no formula and registers nothing. -/
theorem RequestStep.of_holdsNoMore {request : Request} {before : Engine} {cache : Cache Formula}
    (hfunctions : request.functionsAfter before.functions = before.functions)
    (hconstants : request.constantsAfter before.constants = before.constants)
    (h : cache.HoldsNoMore before.cache) :
    RequestStep request before { before with cache := cache } :=
  ⟨rfl, hfunctions.symm, hconstants.symm, fun key formula hholds => .inl (h key formula hholds)⟩

theorem RequestStep.refl {request : Request} {engine : Engine}
    (hfunctions : request.functionsAfter engine.functions = engine.functions)
    (hconstants : request.constantsAfter engine.constants = engine.constants) :
    RequestStep request engine engine :=
  .of_holdsNoMore hfunctions hconstants fun _ _ h => h

/-- A request that asks for a formula. -/
theorem RequestStep.of_formulaStep {request : Request} {before after : Engine} {text : String}
    {bound : Constants} {result : Except Failure Formula}
    (hfunctions : request.functionsAfter before.functions = before.functions)
    (hconstants : request.constantsAfter before.constants = before.constants)
    (hasks : request.Asks before.options.caseSensitive text bound)
    (h : Engine.FormulaStep before text (Engine.cacheKey text bound) bound result after) :
    RequestStep request before after := by
  cases h with
  | found held nothingNew => exact .of_holdsNoMore hfunctions hconstants nothingNew
  | built prepared oneNew =>
    refine ⟨rfl, hfunctions.symm, hconstants.symm, fun key formula hholds => ?_⟩
    rcases oneNew key formula hholds with hold | ⟨hkey, hformula⟩
    · exact .inl hold
    · subst hformula
      exact .inr ⟨text, bound, hasks, hkey, prepared, rfl⟩
  | failed refused nothingNew =>
    exact ⟨rfl, hfunctions.symm, hconstants.symm, fun key formula hholds =>
      .inl (nothingNew key formula hholds)⟩

namespace Session

theorem engine_answer_build (session : Session) (text : String) (constants : Option Variables)
    (keptAs : String) :
    (session.answer (.build text constants keptAs)).2.engine =
      (session.engine.build text constants).2 := by
  rw [answer]
  split
  · rename_i heq
    rw [heq]
  · rename_i heq
    rw [heq]

/-- Every request is such a step. -/
theorem answer_step (session : Session) (request : Request) :
    RequestStep request session.engine (session.answer request).2.engine := by
  cases request with
  | calculate text vars =>
    change RequestStep _ _ (session.engine.calculate text vars).2
    rw [Engine.calculate_eq]
    split
    · exact .refl rfl rfl
    · cases session.engine.acceptVariables vars with
      | error e => exact .refl rfl rfl
      | ok accepted => exact .of_formulaStep rfl rfl ⟨rfl, rfl⟩ (Engine.formula_step _ _ _ _)
  | build text constants keptAs =>
    rw [engine_answer_build, Engine.build]
    split
    · exact .refl rfl rfl
    · split
      · exact .refl rfl rfl
      · rename_i bound hbound
        exact .of_formulaStep rfl rfl ⟨rfl, hbound⟩ (Engine.formula_step _ _ _ _)
  | call kept vars =>
    rw [answer]
    split <;> exact .refl rfl rfl
  | registerFunction name function isOverwritable =>
    rw [answer, Engine.registerFunction]
    cases hregister : session.engine.functions.register name function isOverwritable with
    | error e => exact .refl (by rw [Request.functionsAfter, Registry.accept, hregister]) rfl
    | ok functions =>
      exact ⟨rfl, by rw [Request.functionsAfter, Registry.accept, hregister], rfl,
        fun _ _ h => .inl h⟩
  | registerConstant name value isOverwritable =>
    rw [answer, Engine.registerConstant]
    cases hregister : session.engine.constants.register name value isOverwritable with
    | error e => exact .refl rfl (by rw [Request.constantsAfter, Registry.accept, hregister])
    | ok constants =>
      exact ⟨rfl, rfl, by rw [Request.constantsAfter, Registry.accept, hregister],
        fun _ _ h => .inl h⟩
  | cacheGet key => exact .of_holdsNoMore rfl rfl (Cache.get_holdsNoMore _ key)
  | cacheContains key => exact .refl rfl rfl
  | cacheClear => exact .of_holdsNoMore rfl rfl (Cache.clear_holdsNoMore _)

end Session

end FormulaEngine
