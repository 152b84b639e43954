import FormulaEngine.Proofs.Cache.Alike
import FormulaEngine.Proofs.Engine.Acceptance
import FormulaEngine.Proofs.Engine.Transparency
import FormulaEngine.Proofs.Program.Agreement
import FormulaEngine.Proofs.Tree.Names

/-!
# Both execution modes give the same answers

Two engines that differ in the execution mode go through the same run of
requests.  Formulas of one evaluate trees, and formulas of the other run
programs, some of them made long ago, when other functions were registered.

* `Formula.SameTree` relates two such formulas.  `SameTree.call_eq`: they give
  the same value if the variables cover the constants, and the variables of a
  calculation do (`isSome_fold_of_acceptVariables`).
* `Engine.InBothModes` relates the engines.  They have the same tables, and
  their caches hold related formulas under the same keys.
* `Session.InBothModes.answer` is one request.

`answers_in_both_modes` states it for runs.  The only answers that may differ
are those to direct calls of a formula: there the constants of the engine are
visible to a program, and to a tree they are not.
-/

namespace FormulaEngine

open Text

/-! ## Formulas -/

/-- Two formulas of one tree, the first for evaluation and the second for runs
of its program.  The program was made with earlier functions. -/
structure Formula.SameTree (functions : Functions) (caseSensitive : Bool)
    (interpreted compiled : Formula) : Prop where
  number : compiled.number = interpreted.number
  policy : interpreted.caseSensitive = caseSensitive ∧ compiled.caseSensitive = caseSensitive
  executables : ∃ tree program before,
    interpreted.executable = .interpreted tree ∧ compiled.executable = .compiled program ∧
      Program.ofTree before tree = .ok program ∧ Registry.Keeps before functions ∧
      tree.Resolved before caseSensitive

namespace Formula.SameTree

variable {functions : Functions} {caseSensitive : Bool} {interpreted compiled : Formula}

/-- Registrations do not part the formulas. -/
theorem keeps (h : SameTree functions caseSensitive interpreted compiled) {later : Functions}
    (hkeeps : Registry.Keeps functions later) :
    SameTree later caseSensitive interpreted compiled := by
  obtain ⟨tree, program, before, htree, hprogram, hof, hbefore, hresolved⟩ := h.executables
  exact ⟨h.number, h.policy, tree, program, before, htree, hprogram, hof,
    hbefore.trans hkeeps, hresolved⟩

/-- The formulas give the same value if no name is left to the constants. -/
theorem call_eq (h : SameTree functions caseSensitive interpreted compiled)
    {constants : Constants} {vars : Variables}
    (hcover : ∀ name, canonical caseSensitive name = name →
      (constants.find? name).isSome = true →
        ((vars.fold caseSensitive).find? name).isSome = true) :
    compiled.call functions constants vars = interpreted.call functions constants vars := by
  obtain ⟨tree, program, before, htree, hprogram, hof, hkeeps, hresolved⟩ := h.executables
  rw [call, call, h.policy.1, h.policy.2, htree, hprogram, Executable.run, Executable.run,
    Program.run_ofTree hkeeps hof, Tree.evaluate_eq_valueUnder]
  refine Tree.valueUnder_congr functions tree fun name hname => ?_
  have hname' := hcover name (hresolved.canonical name hname)
  rw [Program.lookUp, Variables.get]
  cases hvar : (vars.fold caseSensitive).find? name with
  | some value => rfl
  | none =>
    cases hconstant : constants.find? name with
    | none => rfl
    | some entry =>
      rw [hvar, hconstant] at hname'
      exact absurd (hname' rfl) Bool.false_ne_true

end Formula.SameTree

namespace Engine

/-! ## Accepted variables -/

/-- The variables of a calculation have the names of all constants. -/
theorem isSome_fold_of_acceptVariables {engine : Engine} {vars accepted : Variables}
    (hpolicy : engine.constants.caseSensitive = engine.options.caseSensitive)
    (h : engine.acceptVariables vars = .ok accepted) {name : String}
    (hname : canonical engine.options.caseSensitive name = name)
    (hconstant : (engine.constants.find? name).isSome = true) :
    ((accepted.fold engine.options.caseSensitive).find? name).isSome = true := by
  refine Variables.isSome_find?_fold hname ?_
  obtain ⟨_, rfl⟩ := eq_withConstants_of_acceptVariables h
  obtain ⟨entry, hentry⟩ := Option.isSome_iff_exists.mp hconstant
  rw [Registry.find?_eq, hpolicy, hname] at hentry
  split at hentry
  · cases hentry
  · rw [find?_withConstants, hentry]
    cases (vars.fold engine.options.caseSensitive).find? name <;> rfl

/-! ## Building through the cache -/

/-- A build does not look at the cache. -/
theorem construct_withCache (engine : Engine) (cache : Cache Formula) (text : String)
    (bound : Constants) :
    { engine with cache := cache }.construct text bound =
      ((engine.construct text bound).1,
        { (engine.construct text bound).2 with cache := cache }) := by
  have hparse : { engine with cache := cache }.parse text bound = engine.parse text bound := rfl
  rw [construct, construct, hparse]
  cases engine.parse text bound with
  | error failure => rfl
  | ok tree =>
    dsimp only
    cases Executable.ofTree engine.options.executionMode engine.functions tree <;> rfl

/-- With the cache a formula is found or added. -/
theorem formula_of_cacheEnabled {engine : Engine} (h : engine.options.cacheEnabled = true)
    (text key : String) (bound : Constants) :
    engine.formula text key bound =
      let added := engine.cache.getOrAdd key (engine.construct text bound).1
      (added.1.result,
        { (if added.1.ran then (engine.construct text bound).2 else engine) with
          cache := added.2 }) := by
  rw [formula, if_pos h, Cache.getOrAdd]
  generalize engine.cache.request key = asked
  obtain ⟨found, asked⟩ := asked
  cases found with
  | value stored => rfl
  | vacant installed =>
    dsimp only
    rw [construct_withCache]
    cases (engine.construct text bound).1 <;> rfl

theorem resolved_of_parse {engine : Engine} {text : String} {bound : Constants} {tree : Tree}
    (h : engine.parse text bound = .ok tree) :
    tree.Resolved engine.functions engine.options.caseSensitive := by
  unfold parse at h
  split at h
  · cases h
  · split at h
    · cases h
    · rename_i assembled hassembled
      have hresolved := Tree.resolved_of_ofTokens hassembled
      split at h
      · split at h
        · cases h
        · rename_i simple hsimple
          cases h
          exact hresolved.simplify hsimple
      · cases h
        exact hresolved

/-- A build fails without a tree, and is counted and gives a formula with
one. -/
theorem construct_cases (engine : Engine) (text : String) (bound : Constants) :
    (∃ failure, engine.parse text bound = .error failure ∧
        engine.construct text bound = (.error failure, engine)) ∨
      ∃ tree formula, engine.parse text bound = .ok tree ∧
        engine.construct text bound =
          (.ok formula, { engine with builds := engine.builds + 1 }) := by
  rw [construct]
  cases hparse : engine.parse text bound with
  | error failure => exact .inl ⟨failure, rfl, rfl⟩
  | ok tree =>
    obtain ⟨executable, hexecutable⟩ :=
      Executable.exists_ofTree engine.options.executionMode (resolved_of_parse hparse).registered
    dsimp only
    rw [hexecutable]
    exact .inr ⟨tree, _, rfl, rfl⟩

/-! ## Engines -/

/-- Two engines, the first of which evaluates trees and the second of which
runs programs.  All else is the same, and so were the builds. -/
structure InBothModes (interpreted compiled : Engine) : Prop where
  mode : interpreted.options.executionMode = .interpreted
  options : compiled.options = { interpreted.options with executionMode := .compiled }
  functions : compiled.functions = interpreted.functions
  constants : compiled.constants = interpreted.constants
  policy : interpreted.constants.caseSensitive = interpreted.options.caseSensitive
  builds : compiled.builds = interpreted.builds
  cache : interpreted.cache.Alike
    (Formula.SameTree interpreted.functions interpreted.options.caseSensitive) compiled.cache

theorem inBothModes_new (options : Options) (draw : Decimal) :
    InBothModes (new { options with executionMode := .interpreted } draw)
      (new { options with executionMode := .compiled } draw) := by
  refine ⟨rfl, rfl, rfl, rfl, ?_, rfl, Cache.alike_new _ _ _⟩
  rw [new]
  dsimp only
  split <;> rfl

namespace InBothModes

variable {interpreted compiled : Engine} (h : InBothModes interpreted compiled)

include h

/-- The engines after builds and with other caches. -/
theorem withCache {cache cache' : Cache Formula} {builds builds' : Nat}
    (hbuilds : builds' = builds) (hcache : cache.Alike
      (Formula.SameTree interpreted.functions interpreted.options.caseSensitive) cache') :
    InBothModes { interpreted with cache := cache, builds := builds }
      { compiled with cache := cache', builds := builds' } :=
  ⟨h.mode, h.options, h.functions, h.constants, h.policy, hbuilds, hcache⟩

theorem caseSensitive : compiled.options.caseSensitive = interpreted.options.caseSensitive := by
  rw [h.options]

theorem parse_eq (text : String) (bound : Constants) :
    compiled.parse text bound = interpreted.parse text bound := by
  rw [parse, parse, h.functions, h.options]

/-- Both engines build formulas of one tree, or fail alike. -/
theorem construct (text : String) (bound : Constants) : ∃ builds,
    (interpreted.construct text bound).2 = { interpreted with builds := builds } ∧
      (compiled.construct text bound).2 = { compiled with builds := builds } ∧
      ResultsAlike (Formula.SameTree interpreted.functions interpreted.options.caseSensitive)
        (interpreted.construct text bound).1 (compiled.construct text bound).1 := by
  rw [Engine.construct, Engine.construct, h.parse_eq]
  cases hparse : interpreted.parse text bound with
  | error failure =>
    refine ⟨interpreted.builds, rfl, ?_, .error failure⟩
    rw [← h.builds]
  | ok tree =>
    have hresolved := resolved_of_parse hparse
    obtain ⟨program, hprogram⟩ := Program.exists_ofTree hresolved.registered
    have htree : Executable.ofTree interpreted.options.executionMode interpreted.functions tree =
        .ok (.interpreted tree) := by
      rw [h.mode]
      rfl
    have hcompiled : Executable.ofTree compiled.options.executionMode compiled.functions tree =
        .ok (.compiled program) := by
      rw [h.options, h.functions]
      dsimp only [Executable.ofTree]
      rw [hprogram]
    dsimp only
    rw [htree, hcompiled, h.builds]
    refine ⟨interpreted.builds + 1, rfl, rfl, .ok ⟨rfl, ⟨rfl, h.caseSensitive⟩, ?_⟩⟩
    exact ⟨tree, program, interpreted.functions, rfl, rfl, hprogram, .refl _, hresolved⟩

/-- Both engines find or build formulas of one tree, or fail alike. -/
theorem formula (text key : String) (bound : Constants) :
    ResultsAlike (Formula.SameTree interpreted.functions interpreted.options.caseSensitive)
        (interpreted.formula text key bound).1 (compiled.formula text key bound).1 ∧
      InBothModes (interpreted.formula text key bound).2
        (compiled.formula text key bound).2 := by
  obtain ⟨builds, hinterpreted, hcompiled, hbuilt⟩ := h.construct text bound
  have henabled : compiled.options.cacheEnabled = interpreted.options.cacheEnabled := by
    rw [h.options]
  cases hcache : interpreted.options.cacheEnabled with
  | false =>
    rw [Engine.formula, Engine.formula, henabled, hcache, if_neg Bool.false_ne_true,
      if_neg Bool.false_ne_true, hinterpreted, hcompiled]
    exact ⟨hbuilt, h.withCache rfl h.cache⟩
  | true =>
    obtain ⟨hresult, hran, hafter⟩ := h.cache.getOrAdd key hbuilt
    rw [formula_of_cacheEnabled hcache, formula_of_cacheEnabled (henabled.trans hcache)]
    refine ⟨hresult, ?_⟩
    dsimp only
    rw [hran, hinterpreted, hcompiled]
    split
    · exact h.withCache rfl hafter
    · exact h.withCache h.builds hafter

theorem acceptVariables_eq (vars : Variables) :
    compiled.acceptVariables vars = interpreted.acceptVariables vars :=
  acceptVariables_congr h.caseSensitive h.functions h.constants vars

/-- A calculation gives the same value or the same error. -/
theorem calculate (text : String) (vars : Variables) :
    (compiled.calculate text vars).1 = (interpreted.calculate text vars).1 ∧
      InBothModes (interpreted.calculate text vars).2 (compiled.calculate text vars).2 := by
  rw [calculate_eq, calculate_eq, h.acceptVariables_eq]
  split
  · exact ⟨rfl, h⟩
  · cases haccept : interpreted.acceptVariables vars with
    | error e => exact ⟨rfl, h⟩
    | ok accepted =>
      obtain ⟨hresult, hafter⟩ :=
        h.formula text text (.empty interpreted.options.caseSensitive)
      rw [textFormula, textFormula, h.caseSensitive]
      refine ⟨?_, hafter⟩
      dsimp only
      generalize (interpreted.formula text text _).1 = result,
        (compiled.formula text text _).1 = result' at hresult
      cases hresult with
      | error failure => rfl
      | ok hsame =>
        have hcall := hsame.call_eq fun name (hname : canonical _ name = name) =>
          isSome_fold_of_acceptVariables h.policy haccept hname
        rw [valueOf, valueOf, call, call, h.functions, h.constants, hcall]

theorem build (text : String) (constants : Option Variables) :
    ResultsAlike (Formula.SameTree interpreted.functions interpreted.options.caseSensitive)
        (interpreted.build text constants).1 (compiled.build text constants).1 ∧
      InBothModes (interpreted.build text constants).2 (compiled.build text constants).2 := by
  rw [Engine.build, Engine.build, h.caseSensitive]
  split
  · exact ⟨.error _, h⟩
  · split
    · exact ⟨.error _, h⟩
    · exact h.formula _ _ _

theorem registerFunction (name : String) (function : Function) (isOverwritable : Bool) :
    ResultsAlike InBothModes (interpreted.registerFunction name function isOverwritable)
      (compiled.registerFunction name function isOverwritable) := by
  rw [Engine.registerFunction, Engine.registerFunction, h.functions]
  cases hregister : interpreted.functions.register name function isOverwritable with
  | error e => exact .error e
  | ok functions =>
    have hkeeps := Registry.register_keeps hregister
    refine .ok ⟨h.mode, h.options, rfl, h.constants, h.policy, h.builds, ?_⟩
    exact h.cache.imp fun formula formula' hsame => hsame.keeps hkeeps

theorem registerConstant (name : String) (value : Decimal) (isOverwritable : Bool) :
    ResultsAlike InBothModes (interpreted.registerConstant name value isOverwritable)
      (compiled.registerConstant name value isOverwritable) := by
  rw [Engine.registerConstant, Engine.registerConstant, h.constants]
  cases hregister : interpreted.constants.register name value isOverwritable with
  | error e => exact .error e
  | ok constants =>
    have hkeeps := Registry.register_keeps hregister
    exact .ok ⟨h.mode, h.options, h.functions, rfl, hkeeps.caseSensitive.trans h.policy,
      h.builds, h.cache⟩

end InBothModes

end Engine

/-! ## Sessions -/

/-- The same answer, or two answers to a direct call. -/
inductive Reply.Agrees : Reply → Reply → Prop where
  | same (reply : Reply) : Agrees reply reply
  | called (result result' : Except EvaluationError Decimal) :
    Agrees (.called result) (.called result')

theorem Reply.Agrees.symm {reply reply' : Reply} (h : reply.Agrees reply') :
    reply'.Agrees reply := by
  cases h with
  | same => exact .same reply
  | called result result' => exact .called result' result

namespace Session

/-- The engines are in both modes, and formulas of the same numbers are kept
under the same names. -/
structure InBothModes (interpreted compiled : Session) : Prop where
  engine : Engine.InBothModes interpreted.engine compiled.engine
  formulas : List.Forall₂ (fun kept kept' => kept'.1 = kept.1 ∧ kept'.2.number = kept.2.number)
    interpreted.formulas compiled.formulas

theorem namesOf_congr {formulas formulas' : List (String × Formula)}
    (h : List.Forall₂ (fun kept kept' => kept'.1 = kept.1 ∧ kept'.2.number = kept.2.number)
      formulas formulas') {formula formula' : Formula}
    (hnumber : formula'.number = formula.number) :
    namesOf formulas' formula' = namesOf formulas formula := by
  have hnames : (formulas'.filter fun kept => kept.2.number == formula'.number).map Prod.fst =
      (formulas.filter fun kept => kept.2.number == formula.number).map Prod.fst := by
    induction h with
    | nil => rfl
    | cons hkept _ ih =>
      rw [List.filter_cons, List.filter_cons, hkept.2, hnumber]
      split
      · rw [List.map_cons, List.map_cons, hkept.1, ← ih, hnumber]
      · rw [← ih, hnumber]
  rw [namesOf, namesOf, hnames]

theorem lookup_congr {formulas formulas' : List (String × Formula)}
    (h : List.Forall₂ (fun kept kept' => kept'.1 = kept.1 ∧ kept'.2.number = kept.2.number)
      formulas formulas') (name : String) :
    (formulas'.lookup name).isSome = (formulas.lookup name).isSome := by
  induction h with
  | nil => rfl
  | @cons kept kept' _ _ hkept _ ih =>
    rw [List.lookup_cons, List.lookup_cons, hkept.1]
    split
    · rfl
    · exact ih

namespace InBothModes

variable {interpreted compiled : Session} (h : InBothModes interpreted compiled)

include h

theorem keep (name : String) {formula formula' : Formula}
    (hnumber : formula'.number = formula.number) :
    List.Forall₂ (fun kept kept' => kept'.1 = kept.1 ∧ kept'.2.number = kept.2.number)
      (Session.keep interpreted.formulas name formula)
      (Session.keep compiled.formulas name formula') := by
  refine .cons ⟨rfl, hnumber⟩ (List.rel_filter ?_ h.formulas)
  intro kept kept' hkept
  show (kept.1 != name) = true ↔ (kept'.1 != name) = true
  rw [hkept.1]

theorem build (text : String) (constants : Option Variables) (keptAs : String) :
    (compiled.answer (.build text constants keptAs)).1 =
        (interpreted.answer (.build text constants keptAs)).1 ∧
      InBothModes (interpreted.answer (.build text constants keptAs)).2
        (compiled.answer (.build text constants keptAs)).2 := by
  obtain ⟨hresult, hafter⟩ := h.engine.build text constants
  rw [answer, answer]
  generalize interpreted.engine.build text constants = outcome,
    compiled.engine.build text constants = outcome' at hresult hafter ⊢
  obtain ⟨result, engine⟩ := outcome
  obtain ⟨result', engine'⟩ := outcome'
  dsimp only at hresult
  cases hresult with
  | error failure => exact ⟨rfl, hafter, h.formulas⟩
  | ok hsame =>
    refine ⟨?_, hafter, h.keep keptAs hsame.number⟩
    dsimp only
    rw [namesOf_congr h.formulas hsame.number]

/-- One request is answered alike, calls apart. -/
theorem answer (request : Request) :
    (interpreted.answer request).1.Agrees (compiled.answer request).1 ∧
      InBothModes (interpreted.answer request).2 (compiled.answer request).2 := by
  cases request with
  | calculate text vars =>
    obtain ⟨hvalue, hafter⟩ := h.engine.calculate text vars
    rw [Session.answer, Session.answer]
    dsimp only
    rw [hvalue]
    exact ⟨.same _, hafter, h.formulas⟩
  | build text constants keptAs =>
    obtain ⟨hreply, hafter⟩ := h.build text constants keptAs
    rw [hreply]
    exact ⟨.same _, hafter⟩
  | call kept vars =>
    have hkept := lookup_congr h.formulas kept
    rw [Session.answer, Session.answer]
    generalize interpreted.formulas.lookup kept = formula,
      compiled.formulas.lookup kept = formula' at hkept ⊢
    cases formula with
    | none =>
      cases formula' with
      | none => exact ⟨.same _, h⟩
      | some formula' => cases hkept
    | some formula =>
      cases formula' with
      | none => cases hkept
      | some formula' => exact ⟨.called _ _, h⟩
  | registerFunction name function isOverwritable =>
    have hafter := h.engine.registerFunction name function isOverwritable
    rw [Session.answer, Session.answer]
    generalize interpreted.engine.registerFunction name function isOverwritable = result,
      compiled.engine.registerFunction name function isOverwritable = result' at hafter
    cases hafter with
    | error e => exact ⟨.same _, h⟩
    | ok hafter => exact ⟨.same _, hafter, h.formulas⟩
  | registerConstant name value isOverwritable =>
    have hafter := h.engine.registerConstant name value isOverwritable
    rw [Session.answer, Session.answer]
    generalize interpreted.engine.registerConstant name value isOverwritable = result,
      compiled.engine.registerConstant name value isOverwritable = result' at hafter
    cases hafter with
    | error e => exact ⟨.same _, h⟩
    | ok hafter => exact ⟨.same _, hafter, h.formulas⟩
  | cacheGet key =>
    obtain ⟨hsome, hafter⟩ := h.engine.cache.get key
    rw [Session.answer, Session.answer]
    dsimp only
    rw [hsome]
    exact ⟨.same _, h.engine.withCache h.engine.builds hafter, h.formulas⟩
  | cacheContains key =>
    have hview := congrArg CacheView.contains h.engine.cache.view_eq
    rw [Session.answer, Session.answer]
    dsimp only
    rw [show compiled.engine.cache.contains = interpreted.engine.cache.contains from hview]
    exact ⟨.same _, h⟩
  | cacheClear =>
    exact ⟨.same _, h.engine.withCache h.engine.builds h.engine.cache.clear, h.formulas⟩

/-- A run is answered alike, calls apart. -/
theorem answerAll (requests : List Request) :
    List.Forall₂ Reply.Agrees (interpreted.answerAll requests).1
        (compiled.answerAll requests).1 ∧
      InBothModes (interpreted.answerAll requests).2 (compiled.answerAll requests).2 := by
  induction requests generalizing interpreted compiled with
  | nil => exact ⟨.nil, h⟩
  | cons request requests ih =>
    obtain ⟨hreply, hafter⟩ := h.answer request
    obtain ⟨hreplies, hlast⟩ := ih hafter
    exact ⟨.cons hreply hreplies, hlast⟩

end InBothModes

theorem inBothModes_new (options : Options) (draw : Decimal) :
    InBothModes (new { options with executionMode := .interpreted } draw)
      (new { options with executionMode := .compiled } draw) :=
  ⟨Engine.inBothModes_new options draw, .nil⟩

/-- The execution mode changes no calculation.  Two new engines whose options
are the same but for the mode answer the same requests alike: with the same
values, the same errors and the same identities of formulas.  Direct calls of
kept formulas are apart.  After any number of the requests, both caches hold
the same keys. -/
theorem answers_in_both_modes (options : Options) (draw : Decimal) (mode mode' : ExecutionMode)
    (requests : List Request) :
    let session := new { options with executionMode := mode } draw
    let session' := new { options with executionMode := mode' } draw
    List.Forall₂ Reply.Agrees (session.answerAll requests).1 (session'.answerAll requests).1 ∧
      ∀ count, (session.answerAll (requests.take count)).2.engine.cache.view =
        (session'.answerAll (requests.take count)).2.engine.cache.view := by
  have hboth := (inBothModes_new options draw).answerAll
  cases mode with
  | interpreted =>
    cases mode' with
    | interpreted => exact ⟨List.forall₂_same.mpr fun reply _ => .same reply, fun _ => rfl⟩
    | compiled =>
      refine ⟨(hboth requests).1, fun count => ?_⟩
      exact (hboth (requests.take count)).2.engine.cache.view_eq.symm
  | compiled =>
    cases mode' with
    | interpreted =>
      refine ⟨(hboth requests).1.flip.imp fun _ _ hagrees => hagrees.symm, fun count => ?_⟩
      exact (hboth (requests.take count)).2.engine.cache.view_eq
    | compiled => exact ⟨List.forall₂_same.mpr fun reply _ => .same reply, fun _ => rfl⟩

end Session

end FormulaEngine
