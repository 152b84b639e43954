import FormulaEngine.Engine

/-!
# Sessions

A session is an engine with the formulas that were built on it and kept
under names.  `Session.answer` answers one request and `Session.answerAll` a
whole run of them.
-/

namespace FormulaEngine

/-- An engine and the kept formulas. -/
structure Session where
  engine : Engine
  formulas : List (String × Formula)

/-- What can be asked of a session. -/
inductive Request where
  | calculate (text : String) (vars : Variables)
  | build (text : String) (constants : Option Variables) (keptAs : String)
  | call (kept : String) (vars : Variables)
  | registerFunction (name : String) (function : Function) (isOverwritable : Bool)
  | registerConstant (name : String) (value : Decimal) (isOverwritable : Bool)
  | cacheGet (key : String)
  | cacheContains (key : String)
  | cacheClear

/-- What a session answers.  A build names the kept formulas that are the
very same one. -/
inductive Reply where
  | calculated (result : Except Failure Decimal)
  | built (result : Except Failure (List String))
  | called (result : Except EvaluationError Decimal)
  | notKept
  | registered (result : Except RegistryError Unit)
  | held (answer : Bool)
  | cleared

namespace Session

/-- A session on a new engine. -/
def new (options : Options) (draw : Decimal) : Session := ⟨.new options draw, []⟩

/-- The names under which a formula is kept, in ascending order. -/
def namesOf (formulas : List (String × Formula)) (formula : Formula) : List String :=
  ((formulas.filter fun kept => kept.2.number == formula.number).map Prod.fst).mergeSort
    fun a b => decide (a ≤ b)

/-- The formulas with one more kept, in the place of one of the same name. -/
def keep (formulas : List (String × Formula)) (name : String) (formula : Formula) :
    List (String × Formula) :=
  (name, formula) :: formulas.filter fun kept => kept.1 != name

/-- The answer to a request and the session after it. -/
def answer (session : Session) : Request → Reply × Session
  | .calculate text vars =>
    let (result, engine) := session.engine.calculate text vars
    (.calculated result, { session with engine := engine })
  | .build text constants keptAs =>
    match session.engine.build text constants with
    | (.error failure, engine) => (.built (.error failure), { session with engine := engine })
    | (.ok formula, engine) =>
      (.built (.ok (namesOf session.formulas formula)),
        ⟨engine, keep session.formulas keptAs formula⟩)
  | .call kept vars =>
    match session.formulas.lookup kept with
    | some formula => (.called (session.engine.call formula vars), session)
    | none => (.notKept, session)
  | .registerFunction name function isOverwritable =>
    match session.engine.registerFunction name function isOverwritable with
    | .error e => (.registered (.error e), session)
    | .ok engine => (.registered (.ok ()), { session with engine := engine })
  | .registerConstant name value isOverwritable =>
    match session.engine.registerConstant name value isOverwritable with
    | .error e => (.registered (.error e), session)
    | .ok engine => (.registered (.ok ()), { session with engine := engine })
  | .cacheGet key =>
    let (value, cache) := session.engine.cache.get key
    (.held value.isSome, { session with engine := { session.engine with cache := cache } })
  | .cacheContains key => (.held (session.engine.cache.contains key), session)
  | .cacheClear =>
    (.cleared, { session with
      engine := { session.engine with cache := session.engine.cache.clear } })

/-- The answers to a run of requests and the session after it. -/
def answerAll (session : Session) : List Request → List Reply × Session
  | [] => ([], session)
  | request :: requests =>
    let (reply, after) := session.answer request
    let (replies, last) := after.answerAll requests
    (reply :: replies, last)

end Session

end FormulaEngine
