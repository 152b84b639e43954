import FormulaEngine.Engine.Session
import FormulaEngine.Proofs.Cache.Contents
import FormulaEngine.Tree.Reader

/-!
# Building formulas

What a build gives depends on the options, the functions, the text and the
bound constants.  `Engine.prepare` is the executable of a formula as a
function of these four, and `construct_eq` says that a build gives exactly
that.

A request that needs a formula takes it from the cache or builds it.
`FormulaStep` lists what can happen, with the contents of the cache after it,
and `formula_step` says that this is all.
-/

namespace FormulaEngine

namespace Engine

/-! ## Preparing -/

/-- A tree with its constant parts evaluated, if the options ask for that. -/
def simplified (options : Options) (functions : Functions) (tree : Tree) :
    Except EvaluationError Tree :=
  if options.optimizerEnabled then tree.simplify functions else .ok tree

/-- The executable of a text with bound constants. -/
def prepare (options : Options) (functions : Functions) (text : String) (bound : Constants) :
    Except Failure Executable :=
  match Tree.read ⟨options.decimalSeparator⟩ ⟨functions, bound, options.caseSensitive⟩ text with
  | .error failure => .error failure
  | .ok tree =>
    match simplified options functions tree with
    | .error e => .error (.of text (.evaluation e))
    | .ok simple =>
      match Executable.ofTree options.executionMode functions simple with
      | .error e => .error (.of text (.evaluation e))
      | .ok executable => .ok executable

/-- The engine reads a text and simplifies its tree. -/
theorem parse_eq (engine : Engine) (text : String) (bound : Constants) :
    engine.parse text bound =
      match Tree.read ⟨engine.options.decimalSeparator⟩
        ⟨engine.functions, bound, engine.options.caseSensitive⟩ text with
      | .error failure => .error failure
      | .ok tree =>
        match simplified engine.options engine.functions tree with
        | .error e => .error (.of text (.evaluation e))
        | .ok simple => .ok simple := by
  rw [parse, Tree.read]
  cases tokenize ⟨engine.options.decimalSeparator⟩ text with
  | error e => rfl
  | ok tokens =>
    dsimp only
    cases Tree.ofTokens ⟨engine.functions, bound, engine.options.caseSensitive⟩ tokens with
    | error e => rfl
    | ok tree =>
      dsimp only [simplified]
      split
      · rfl
      · rfl

/-- A build gives the prepared executable, and changes nothing but the count
of builds. -/
theorem construct_eq (engine : Engine) (text : String) (bound : Constants) :
    ∃ builds, engine.construct text bound =
      ((prepare engine.options engine.functions text bound).map
          fun executable => ⟨engine.builds, engine.options.caseSensitive, executable⟩,
        { engine with builds := builds }) := by
  rw [construct, parse_eq, prepare]
  cases Tree.read ⟨engine.options.decimalSeparator⟩
      ⟨engine.functions, bound, engine.options.caseSensitive⟩ text with
  | error failure => exact ⟨engine.builds, rfl⟩
  | ok tree =>
    dsimp only
    cases simplified engine.options engine.functions tree with
    | error e => exact ⟨engine.builds, rfl⟩
    | ok simple =>
      dsimp only
      refine ⟨engine.builds + 1, ?_⟩
      cases Executable.ofTree engine.options.executionMode engine.functions simple <;> rfl

/-- A formula runs the executable of a text with bound constants, under the
case policy of the options. -/
def IsPrepared (options : Options) (functions : Functions) (text : String) (bound : Constants)
    (formula : Formula) : Prop :=
  prepare options functions text bound = .ok formula.executable ∧
    formula.caseSensitive = options.caseSensitive

/-! ## From the cache or anew -/

/-- What a request for a formula can do: find the formula, build it, or fail
to build it.  The contents of the cache after it are old, or the formula that
was built, under its key. -/
inductive FormulaStep (engine : Engine) (text key : String) (bound : Constants) :
    Except Failure Formula → Engine → Prop where
  | found {formula : Formula} {cache : Cache Formula}
      (held : engine.cache.Holds key formula) (nothingNew : cache.HoldsNoMore engine.cache) :
      FormulaStep engine text key bound (.ok formula) { engine with cache := cache }
  | built {executable : Executable} {cache : Cache Formula} {builds : Nat}
      (prepared : prepare engine.options engine.functions text bound = .ok executable)
      (oneNew : ∀ other formula, cache.Holds other formula → engine.cache.Holds other formula ∨
        other = key ∧ formula = ⟨engine.builds, engine.options.caseSensitive, executable⟩) :
      FormulaStep engine text key bound
        (.ok ⟨engine.builds, engine.options.caseSensitive, executable⟩)
        { engine with cache := cache, builds := builds }
  | failed {failure : Failure} {cache : Cache Formula} {builds : Nat}
      (refused : prepare engine.options engine.functions text bound = .error failure)
      (nothingNew : cache.HoldsNoMore engine.cache) :
      FormulaStep engine text key bound (.error failure)
        { engine with cache := cache, builds := builds }

theorem formula_step (engine : Engine) (text key : String) (bound : Constants) :
    FormulaStep engine text key bound (engine.formula text key bound).1
      (engine.formula text key bound).2 := by
  rw [formula]
  split
  · have hrequest := Cache.request_holdsNoMore engine.cache key
    split
    · rename_i found cache heq
      rw [heq] at hrequest
      exact .found (Cache.holds_of_request heq) hrequest
    · rename_i installed cache heq
      rw [heq] at hrequest
      obtain ⟨builds, hconstruct⟩ := construct_eq { engine with cache := cache } text bound
      rw [hconstruct]
      cases hprepare : prepare engine.options engine.functions text bound with
      | error failure =>
        refine .failed hprepare fun other formula h => hrequest other formula ?_
        exact Cache.abandon_holdsNoMore cache key installed other formula h
      | ok executable =>
        refine .built hprepare fun other formula h => ?_
        exact (Cache.holds_of_fill h).imp_left (hrequest other formula)
  · obtain ⟨builds, hconstruct⟩ := construct_eq engine text bound
    rw [hconstruct]
    cases hprepare : prepare engine.options engine.functions text bound with
    | error failure => exact .failed hprepare fun _ _ h => h
    | ok executable => exact .built hprepare fun _ _ h => .inl h

/-- Without the cache every request builds. -/
theorem formula_of_cacheDisabled {engine : Engine} (h : engine.options.cacheEnabled = false)
    (text key : String) (bound : Constants) :
    (engine.formula text key bound).1 =
      (prepare engine.options engine.functions text bound).map
        fun executable => ⟨engine.builds, engine.options.caseSensitive, executable⟩ := by
  obtain ⟨builds, hconstruct⟩ := construct_eq engine text bound
  rw [formula, if_neg (by simp [h]), hconstruct]

end Engine

end FormulaEngine
