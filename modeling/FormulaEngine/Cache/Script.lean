import FormulaEngine.Cache

/-!
# Cache scripts

A script is a list of steps on a cache.  The build of an added value may
itself run a script on the same cache before it ends, to any depth.  Running
a script gives a trace: what each step answered, what the steps of its build
answered, and the cache after it.
-/

namespace FormulaEngine

namespace Cache

/-- One step.  A value is added under a key by a build, which first runs the
inner steps and then ends with the value, or fails if there is none. -/
inductive Step where
  | add (key : String) (value : Option String) (inner : List Step)
  | get (key : String)
  | contains (key : String)
  | clear

/-- What a step answers.  An added value says whether its build ran. -/
inductive Reply where
  | added (value : String) (ran : Bool)
  | failed
  | got (value : Option String)
  | contained (answer : Bool)
  | cleared
  deriving DecidableEq

/-- What was seen of a step: its answer, the inner steps of its build, and
the cache afterwards. -/
inductive Observation where
  | seen (reply : Reply) (inner : List Observation) (after : Cache String)

/-- The cache after a step. -/
def Observation.after : Observation → Cache String
  | .seen _ _ after => after

mutual

/-- Runs one step. -/
def Step.run (cache : Cache String) : Step → Observation
  | .add key value inner =>
    match cache.request key with
    | (.value stored, asked) => .seen (.added stored false) [] asked
    | (.vacant installed, asked) =>
      let (observations, built) := runAll asked inner
      match value with
      | some value => .seen (.added value true) observations (built.fill key installed value)
      | none => .seen .failed observations (built.abandon key installed)
  | .get key =>
    let (value, asked) := cache.get key
    .seen (.got value) [] asked
  | .contains key => .seen (.contained (cache.contains key)) [] cache
  | .clear => .seen .cleared [] cache.clear

/-- Runs the steps of a script; the last cache is that after all of them. -/
def runAll (cache : Cache String) : List Step → List Observation × Cache String
  | [] => ([], cache)
  | step :: steps =>
    let observation := Step.run cache step
    let (observations, last) := runAll observation.after steps
    (observation :: observations, last)

end

end Cache

end FormulaEngine
