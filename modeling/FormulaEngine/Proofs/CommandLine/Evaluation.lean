import FormulaEngine.CommandLine
import FormulaEngine.Proofs.CommandLine.OneMore
import FormulaEngine.Proofs.Engine.OneShot
import FormulaEngine.Proofs.Engine.PartialEvaluation

/-!
# What a command prints

A command evaluates its formula once or more on an engine of its own, on one of
two paths: without bound constants it calculates, with some it builds and calls.

* `Engine.outcome`: the result of an evaluation without cache.
* `Command.operands`: the variables and the bound constants of a command, where
  alone the paths differ.  `evaluate_eq` is the common form.
* `run_eq`: all repetitions together give the outcome once.
-/

namespace FormulaEngine

open Text

namespace Engine

/-! ## Outcomes -/

/-- The value of a text under variables, with constants in place of names, by a
formula that is built for it. -/
def outcome (engine : Engine) (text : String) (vars : Variables) (bound : Constants) :
    Except Failure Decimal :=
  engine.valueOf text vars ((prepare engine.options engine.functions text bound).map
    fun executable => ⟨engine.builds, engine.options.caseSensitive, executable⟩)

section Outcomes

variable {engine : Engine} {text : String} {vars vars' : Variables} {bound bound' : Constants}

theorem valueOf_of_prepares {result : Except Failure Formula}
    (h : Prepares engine.options engine.functions text bound result) :
    engine.valueOf text vars result = engine.outcome text vars bound := by
  cases result with
  | error failure =>
    have hprepare : prepare engine.options engine.functions text bound = .error failure := h
    rw [outcome, hprepare]
    rfl
  | ok formula =>
    obtain ⟨number, caseSensitive, executable⟩ := formula
    obtain ⟨hprepare, hpolicy⟩ := h
    subst hpolicy
    rw [outcome, hprepare]
    rfl

/-- Only the values of the variables matter. -/
theorem outcome_congr (hfind : ∀ name, (vars.fold engine.options.caseSensitive).find? name =
      (vars'.fold engine.options.caseSensitive).find? name) :
    engine.outcome text vars bound = engine.outcome text vars' bound := by
  unfold outcome
  cases hprepare : prepare engine.options engine.functions text bound with
  | error failure => rfl
  | ok executable =>
    dsimp only [Except.map, valueOf, call, Formula.call]
    rw [run_congr_of_prepare hprepare hfind]

/-- Only the constants under the names in the text matter. -/
theorem outcome_congr_constants
    (h : ∀ name ∈ namesIn ⟨engine.options.decimalSeparator⟩ text,
      bound'.find? name = bound.find? name) :
    engine.outcome text vars bound' = engine.outcome text vars bound := by
  rw [outcome, outcome, prepare_congr_constants h]

end Outcomes

/-! ## The same request again -/

/-- An engine on which one text was requested any number of times. -/
structure Repeats (base : Engine) (text : String) (bound : Constants) (engine : Engine) :
    Prop where
  options : engine.options = base.options
  functions : engine.functions = base.functions
  constants : engine.constants = base.constants
  held : ∀ formula, engine.cache.Holds (cacheKey text bound) formula →
    IsPrepared base.options base.functions text bound formula

theorem Repeats.formula {base engine : Engine} {text : String} {bound : Constants}
    (h : Repeats base text bound engine) :
    Prepares base.options base.functions text bound
        (engine.formula text (cacheKey text bound) bound).1 ∧
      Repeats base text bound (engine.formula text (cacheKey text bound) bound).2 := by
  have hheld := h.held
  rw [← h.options, ← h.functions] at hheld ⊢
  have hprepares := prepares_formula hheld
  have hstep := formula_step engine text (cacheKey text bound) bound
  obtain ⟨hoptions, hfunctions, hconstants⟩ := hstep.tables
  refine ⟨hprepares, hoptions.trans h.options, hfunctions.trans h.functions,
    hconstants.trans h.constants, fun formula hholds => ?_⟩
  rw [← h.options, ← h.functions]
  generalize (engine.formula text (cacheKey text bound) bound).1 = result,
    (engine.formula text (cacheKey text bound) bound).2 = after at hstep hholds
  cases hstep with
  | found _ nothingNew => exact hheld formula (nothingNew _ formula hholds)
  | built prepared oneNew =>
    rcases oneNew _ formula hholds with hold | ⟨_, rfl⟩
    · exact hheld formula hold
    · exact ⟨prepared, rfl⟩
  | failed _ nothingNew => exact hheld formula (nothingNew _ formula hholds)

end Engine

namespace CommandLine

namespace Command

open Engine

/-! ## One command -/

/-- The variables and the bound constants of a command, unless they are
refused. -/
def operands (command : Command) (engine : Engine) :
    Except ArgumentError (Variables × Constants) :=
  if (Variables.ofList command.constants).isEmpty then
    (engine.acceptVariables (.ofList command.vars)).map
      fun accepted => (accepted, .empty engine.options.caseSensitive)
  else
    (bindConstants engine.options.caseSensitive (.ofList command.constants)).map fun bound =>
      (withEngineConstants command.caseSensitive engine.constants (.ofList command.vars), bound)

theorem operands_congr (command : Command) {engine other : Engine}
    (hoptions : other.options = engine.options) (hfunctions : other.functions = engine.functions)
    (hconstants : other.constants = engine.constants) :
    command.operands other = command.operands engine := by
  rw [operands, operands, acceptVariables_congr (by rw [hoptions]) hfunctions hconstants, hoptions,
    hconstants]

/-- Both paths ask for a formula and call it. -/
theorem evaluate_eq (command : Command) (engine : Engine) :
    command.evaluate engine =
      if isBlank command.formula then
        (.error (.of command.formula (.argument .blankFormula)), engine)
      else
        match command.operands engine with
        | .error e => (.error (.of command.formula (.argument e)), engine)
        | .ok (vars, bound) =>
          let asked := engine.formula command.formula (cacheKey command.formula bound) bound
          (engine.valueOf command.formula vars asked.1, asked.2) := by
  rw [evaluate, operands]
  dsimp only
  split
  · rw [calculate_eq]
    split
    · rfl
    · cases engine.acceptVariables (.ofList command.vars) with
      | error e => rfl
      | ok accepted =>
        dsimp only [Except.map]
        rw [cacheKey_of_isEmpty _ rfl]
        rfl
  · rw [build, Option.getD_some]
    by_cases hblank : isBlank command.formula = true
    · rw [if_pos hblank, if_pos hblank]
    · rw [if_neg hblank, if_neg hblank]
      cases bindConstants engine.options.caseSensitive (.ofList command.constants) with
      | error e => rfl
      | ok bound =>
        dsimp only [Except.map]
        obtain ⟨_, hfunctions, hconstants⟩ :=
          (formula_step engine command.formula (cacheKey command.formula bound) bound).tables
        generalize engine.formula command.formula (cacheKey command.formula bound) bound = asked
          at hfunctions hconstants
        obtain ⟨result, after⟩ := asked
        dsimp only at hfunctions hconstants
        cases result with
        | error failure => rfl
        | ok formula =>
          dsimp only [valueOf]
          rw [call, call, hfunctions, hconstants]
          cases formula.call engine.functions engine.constants _ <;> rfl

section Repetitions

variable {command : Command} {base : Engine} {vars : Variables} {bound : Constants}
  (hnonblank : ¬isBlank command.formula = true)
  (hoperands : command.operands base = .ok (vars, bound))

include hnonblank hoperands

/-- Every evaluation has the same outcome. -/
theorem evaluate_of_repeats {engine : Engine} (h : Repeats base command.formula bound engine) :
    (command.evaluate engine).1 = base.outcome command.formula vars bound ∧
      Repeats base command.formula bound (command.evaluate engine).2 := by
  obtain ⟨hprepares, hafter⟩ := h.formula
  rw [evaluate_eq, if_neg hnonblank, operands_congr command h.options h.functions h.constants,
    hoperands]
  refine ⟨?_, hafter⟩
  have hvalue : engine.valueOf command.formula vars = base.valueOf command.formula vars := by
    funext result
    cases result with
    | error failure => rfl
    | ok formula => rw [valueOf, valueOf, call, call, h.functions, h.constants]
  dsimp only
  rw [hvalue, valueOf_of_prepares hprepares]

theorem evaluateMore_eq {engine : Engine} (h : Repeats base command.formula bound engine)
    {value : Decimal} (hvalue : base.outcome command.formula vars bound = .ok value)
    (times : Nat) : command.evaluateMore engine value times = .ok value := by
  induction times generalizing engine with
  | zero => rfl
  | succ times ih =>
    obtain ⟨hfirst, hafter⟩ := evaluate_of_repeats hnonblank hoperands h
    rw [evaluateMore]
    generalize command.evaluate engine = evaluated at hfirst hafter
    obtain ⟨result, after⟩ := evaluated
    dsimp only at hfirst
    rw [hfirst, hvalue]
    exact ih hafter

end Repetitions

/-- Evaluating a formula again does not change the outcome. -/
theorem run_eq (command : Command) (draw : Decimal) :
    command.run draw =
      if isBlank command.formula then .error (.of command.formula (.argument .blankFormula))
      else
        match command.operands (.new command.options draw) with
        | .error e => .error (.of command.formula (.argument e))
        | .ok (vars, bound) =>
          (Engine.new command.options draw).outcome command.formula vars bound := by
  have heq := command.evaluate_eq (.new command.options draw)
  rw [run]
  by_cases hblank : isBlank command.formula = true
  · rw [if_pos hblank] at heq ⊢
    rw [heq]
  · cases hoperands : command.operands (.new command.options draw) with
    | error e =>
      rw [if_neg hblank, hoperands] at heq
      rw [if_neg hblank, heq]
    | ok pair =>
      obtain ⟨vars, bound⟩ := pair
      have hstart : Repeats (.new command.options draw) command.formula bound
          (.new command.options draw) :=
        ⟨rfl, rfl, rfl, fun _ hholds => absurd hholds (Cache.not_holds_of_slots_eq_nil rfl)⟩
      obtain ⟨hfirst, hafter⟩ := evaluate_of_repeats hblank hoperands hstart
      rw [if_neg hblank]
      generalize command.evaluate (.new command.options draw) = evaluated at hfirst hafter
      obtain ⟨result, after⟩ := evaluated
      dsimp only at hfirst hafter ⊢
      rw [hfirst]
      cases hvalue : (Engine.new command.options draw).outcome command.formula vars bound with
      | error failure => rfl
      | ok value => exact evaluateMore_eq hblank hoperands hafter hvalue _

end Command

end CommandLine

end FormulaEngine
