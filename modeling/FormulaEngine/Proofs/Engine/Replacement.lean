import FormulaEngine.Proofs.Engine.Transparency
import FormulaEngine.Proofs.Tree.Dependence

/-!
# Replaced functions

An overwritable function may be replaced after a formula was built that calls
it.  The formula looks the function up in every call, and so it gives what a
formula gives that is built after the replacement.  This fails for the calls
that were folded when the formula was built: their values stay.

* `ReplacedExcept` relates the functions before and after some replacements,
  none of them of certain functions.  `ReplacedExcept.accept` is one
  registration.
* `prepare_congr`: these functions prepare the same formula if those that the
  optimizer runs are among the ones that stay.
* `Follows` is the invariant of a run after a build, and `Follows.step` is one
  request.

`replacements_take_effect` states what follows for the answers, and
`folded_call_keeps_value` is a run with a folded call.
-/

namespace FormulaEngine

open Text

/-! ## Replacements -/

/-- The functions after replacements of overwritable ones, none of them with a
name in `kept`. -/
structure ReplacedExcept (kept : List String) (before after : Functions) : Prop where
  caseSensitive : after.caseSensitive = before.caseSensitive
  kinds : SameKinds before after
  same : ∀ name ∈ kept, after.find? name = before.find? name

theorem ReplacedExcept.refl (kept : List String) (functions : Functions) :
    ReplacedExcept kept functions functions := by
  refine ⟨rfl, fun name => ?_, fun _ _ => rfl⟩
  cases functions.find? name with
  | none => exact .none
  | some entry => exact .some ⟨⟨rfl, rfl, rfl⟩, rfl, fun _ => rfl⟩

/-- The registration is refused, or puts a function of the same arity and the
same flags in the place of an overwritable one that has no name in `kept`. -/
def Registration.Replaces (functions : Functions) (kept : List String)
    (call : Registration Function) : Prop :=
  isBlank call.name = true ∨ ∃ old, functions.find? call.name = some old ∧
    (old.isOverwritable = true →
      call.isOverwritable = true ∧ call.content.arity = old.content.arity ∧
        call.content.isIdempotent = old.content.isIdempotent ∧
        ∀ name ∈ kept, canonical functions.caseSensitive call.name ≠
          canonical functions.caseSensitive name)

section

variable {kept : List String} {before after : Functions} {call : Registration Function}

/-- A registration that is not refused replaces an overwritable function. -/
theorem ReplacedExcept.exists_of_register (h : ReplacedExcept kept before after)
    (hcall : call.Replaces before kept) {last : Functions}
    (hregister : after.register call.name call.content call.isOverwritable = .ok last) :
    ∃ old, before.find? call.name = some old ∧
      old.SameKind ⟨canonical before.caseSensitive call.name, call.content,
        call.isOverwritable⟩ ∧
      ∀ name ∈ kept, canonical before.caseSensitive call.name ≠
        canonical before.caseSensitive name := by
  obtain ⟨hnonblank, hopen, _⟩ := Registry.register_eq_ok_iff.mp hregister
  obtain ⟨old, hold, hsame⟩ := hcall.resolve_left (by simp [hnonblank])
  obtain ⟨current, hcurrent, hkind⟩ : ∃ current, after.find? call.name = some current ∧
      old.SameKind current := by
    have hrel := h.kinds call.name
    rw [hold] at hrel
    generalize after.find? call.name = entry at hrel
    cases hrel with
    | some hkind => exact ⟨_, rfl, hkind⟩
  rw [Registry.find?_eq, if_neg (by simp [hnonblank])] at hcurrent
  have hopen' : old.isOverwritable = true :=
    hkind.isOverwritable ▸ hopen current hcurrent
  obtain ⟨hoverwritable, harity, hidempotent, hfree⟩ := hsame hopen'
  refine ⟨old, hold, ⟨⟨(Registry.name_of_find? hold).symm, harity, hidempotent⟩, ?_, ?_⟩, hfree⟩
  · rw [hopen', hoverwritable]
  · intro hlocked
    rw [hopen'] at hlocked
    cases hlocked

/-- The functions after one more replacement. -/
theorem ReplacedExcept.accept (h : ReplacedExcept kept before after)
    (hcall : call.Replaces before kept) : ReplacedExcept kept before (after.accept call) := by
  rw [Registry.accept]
  split
  case h_2 => exact h
  case h_1 last hregister =>
    obtain ⟨old, hold, hkind, hfree⟩ := h.exists_of_register hcall hregister
    have hpolicy : last.caseSensitive = after.caseSensitive :=
      (Registry.register_keeps hregister).caseSensitive
    have hfind := Registry.find?_register hregister
    rw [h.caseSensitive] at hfind
    refine ⟨hpolicy.trans h.caseSensitive, fun name => ?_, fun name hname => ?_⟩
    · rw [hfind name]
      split
      · rename_i hnew
        have hentry : before.find? name = some old := by
          rw [← hold, Registry.find?_eq, Registry.find?_eq, hnew.1, hnew.2,
            (Registry.register_eq_ok_iff.mp hregister).1]
        rw [hentry]
        exact .some hkind
      · exact h.kinds name
    · rw [hfind name, if_neg fun hnew => hfree name hname hnew.2]
      exact h.same name hname

end

namespace Engine

/-! ## Preparing -/

/-- The names of the functions that run while a formula is prepared. -/
def foldedNames (options : Options) (functions : Functions) (text : String)
    (bound : Constants) : List String :=
  match Tree.read ⟨options.decimalSeparator⟩ ⟨functions, bound, options.caseSensitive⟩ text with
  | .error _ => []
  | .ok tree => if options.optimizerEnabled then tree.foldedNames else []

/-- Replacements of other functions do not change what is prepared. -/
theorem prepare_congr {options : Options} {before after : Functions} {text : String}
    {bound : Constants}
    (h : ReplacedExcept (foldedNames options before text bound) before after) :
    prepare options after text bound = prepare options before text bound := by
  have hkept := h.same
  unfold foldedNames at hkept
  unfold prepare
  rw [read_congr h.kinds.sameSignatures]
  cases hread : Tree.read ⟨options.decimalSeparator⟩ ⟨before, bound, options.caseSensitive⟩
      text with
  | error failure => rfl
  | ok tree =>
    have hsimplified : simplified options after tree = simplified options before tree := by
      unfold simplified
      split
      · rename_i henabled
        apply Tree.simplify_congr
        simpa [hread, henabled] using hkept
      · rfl
    dsimp only
    rw [hsimplified]
    simp only [Executable.ofTree_congr h.kinds]

theorem isPlainText_of_prepare {options : Options} {functions : Functions} {text : String}
    {bound : Constants} {executable : Executable}
    (h : prepare options functions text bound = .ok executable) : IsPlainText text := by
  unfold prepare Tree.read at h
  cases htokens : tokenize ⟨options.decimalSeparator⟩ text with
  | error e =>
    rw [htokens] at h
    cases h
  | ok tokens => exact isPlainText_of_tokenize htokens

end Engine

/-! ## Runs -/

/-- If the request registers a function, it replaces one that is not `kept`. -/
def Request.Replaces (functions : Functions) (kept : List String) : Request → Prop
  | .registerFunction name function isOverwritable =>
    Registration.Replaces functions kept ⟨name, function, isOverwritable⟩
  | _ => True

namespace Engine

theorem eq_empty_of_bindConstants {caseSensitive : Bool} {constants : Variables}
    {bound : Constants} (hbound : bindConstants caseSensitive constants = .ok bound)
    (hnone : bound.isEmpty = true) : bound = .empty caseSensitive := by
  obtain ⟨rfl, _⟩ := bindConstants_eq_ok hbound
  have hentries := List.isEmpty_iff.mp hnone
  unfold boundTo at hentries ⊢
  dsimp only at hentries
  rw [hentries]
  rfl

theorem eq_empty_of_asks {request : Request} {caseSensitive : Bool} {text : String}
    {bound : Constants} (h : request.Asks caseSensitive text bound)
    (hnone : bound.isEmpty = true) : bound = .empty caseSensitive := by
  cases request with
  | calculate asked vars => exact h.2
  | build asked constants keptAs => exact eq_empty_of_bindConstants h.2 hnone
  | call _ _ | registerFunction _ _ _ | registerConstant _ _ _ | cacheGet _
  | cacheContains _ | cacheClear => exact h.elim

/-- The engine came from `base` by a run in which functions were replaced that
are not folded in the text.  If no constants are bound, the formulas that it
holds under the text are those that `base` prepares. -/
structure Follows (base : Engine) (text : String) (bound : Constants) (engine : Engine) :
    Prop where
  options : engine.options = base.options
  functions : ReplacedExcept (foldedNames base.options base.functions text bound)
    base.functions engine.functions
  held : bound.isEmpty = true → ∀ formula, engine.cache.Holds text formula →
    IsPrepared base.options base.functions text bound formula

section

variable {base engine : Engine} {text : String} {bound : Constants}

/-- The same is prepared as before the run. -/
theorem Follows.prepare_eq (h : Follows base text bound engine) :
    prepare engine.options engine.functions text bound =
      prepare base.options base.functions text bound := by
  rw [h.options]
  exact prepare_congr h.functions

/-- One request in which no folded function is replaced. -/
theorem Follows.step {request : Request} {after : Engine} (h : Follows base text bound engine)
    (htext : IsPlainText text) {constants : Variables}
    (hbound : bindConstants base.options.caseSensitive constants = .ok bound)
    (hrequest : request.Replaces base.functions
      (foldedNames base.options base.functions text bound))
    (hstep : RequestStep request engine after) : Follows base text bound after := by
  refine ⟨hstep.options.trans h.options, ?_, ?_⟩
  · rw [hstep.functions]
    cases request with
    | registerFunction name function isOverwritable => exact h.functions.accept hrequest
    | calculate _ _ | build _ _ _ | call _ _ | registerConstant _ _ _ | cacheGet _
    | cacheContains _ | cacheClear => exact h.functions
  · intro hnone formula hholds
    rcases hstep.oneNew text formula hholds with hold | ⟨asked, bound', hasks, hkey, hprepared⟩
    · exact h.held hnone formula hold
    · -- A key that is a plain text binds no constants.
      cases hnone' : bound'.isEmpty with
      | false =>
        have hne := @cacheKey_ne text asked (.empty true) bound' htext rfl hnone'
        exact absurd hkey hne
      | true =>
        have hbound' : bound' = bound := by
          rw [eq_empty_of_asks hasks hnone', h.options, eq_empty_of_bindConstants hbound hnone]
        rw [cacheKey_of_isEmpty asked hnone'] at hkey
        subst hkey hbound'
        refine ⟨?_, ?_⟩
        · rw [← h.prepare_eq]
          exact hprepared.1
        · rw [← h.options]
          exact hprepared.2

/-- A fresh build gives a formula that behaves like an earlier one. -/
theorem Follows.exists_fresh (h : Follows base text bound engine) {constants : Option Variables}
    {formula : Formula} (hnonblank : isBlank text = false)
    (hbound : bindConstants base.options.caseSensitive (constants.getD .empty) = .ok bound)
    (hprepared : IsPrepared base.options base.functions text bound formula) :
    ∃ fresh, (engine.withoutCache.build text constants).1 = .ok fresh ∧
      formula.BehavesLike fresh := by
  have hpolicy : engine.withoutCache.options.caseSensitive = base.options.caseSensitive := by
    show engine.options.caseSensitive = _
    rw [h.options]
  have hprepare : prepare engine.options engine.functions text bound = .ok formula.executable :=
    h.prepare_eq.trans hprepared.1
  refine ⟨⟨engine.builds, engine.options.caseSensitive, formula.executable⟩, ?_, ?_⟩
  · rw [build, if_neg (by simp [hnonblank]), hpolicy, hbound]
    dsimp only
    rw [(IsTwin.withoutCache engine).formula, hprepare]
    rfl
  · rw [h.options]
    exact behavesLike_of_isPrepared hprepared hprepared.1

/-- A calculation gives the value of a formula that is built afresh. -/
theorem Follows.calculate_eq (h : Follows base text bound engine) {constants : Variables}
    (hbound : bindConstants base.options.caseSensitive constants = .ok bound)
    (hnone : bound.isEmpty = true) (vars : Variables) :
    (engine.calculate text vars).1 = (engine.withoutCache.calculate text vars).1 := by
  have hempty : bound = .empty engine.options.caseSensitive := by
    rw [h.options]
    exact eq_empty_of_bindConstants hbound hnone
  apply calculate_of_sameBuild (.withoutCache engine)
  apply sameBuild_formula (.withoutCache engine)
  intro formula hformula
  have hstep := formula_step engine text text (.empty engine.options.caseSensitive)
  rw [hformula] at hstep
  generalize (engine.formula text text (.empty engine.options.caseSensitive)).2 = after at hstep
  rw [← hempty] at hstep ⊢
  cases hstep with
  | found held _ =>
    have hprepared := h.held hnone formula held
    refine ⟨h.prepare_eq.trans hprepared.1, ?_⟩
    rw [h.options]
    exact hprepared.2
  | built prepared _ => exact ⟨prepared, rfl⟩

end

/-- A build that does not find its formula prepares it. -/
theorem isPrepared_of_build {engine : Engine} {text : String} {constants : Option Variables}
    {bound : Constants} {formula : Formula}
    (hbuild : (engine.build text constants).1 = .ok formula)
    (hbound : bindConstants engine.options.caseSensitive (constants.getD .empty) = .ok bound)
    (hnew : ∀ old, ¬engine.cache.Holds (cacheKey text bound) old) :
    isBlank text = false ∧ IsPrepared engine.options engine.functions text bound formula := by
  rw [build] at hbuild
  split at hbuild
  · cases hbuild
  · rename_i hnonblank
    rw [hbound] at hbuild
    have hstep := formula_step engine text (cacheKey text bound) bound
    rw [hbuild] at hstep
    generalize (engine.formula text (cacheKey text bound) bound).2 = after at hstep
    cases hstep with
    | found held _ => exact absurd held (hnew _)
    | built prepared _ => exact ⟨Bool.not_eq_true _ ▸ hnonblank, prepared, rfl⟩

end Engine

namespace Session

open Engine

/-- A run in which no folded function is replaced. -/
theorem answerAll_follows {session : Session} {base : Engine} {text : String} {bound : Constants}
    {constants : Variables} (requests : List Request)
    (h : Follows base text bound session.engine) (htext : IsPlainText text)
    (hbound : bindConstants base.options.caseSensitive constants = .ok bound)
    (hrequests : ∀ request ∈ requests, request.Replaces base.functions
      (foldedNames base.options base.functions text bound)) :
    Follows base text bound (session.answerAll requests).2.engine := by
  induction requests generalizing session with
  | nil => exact h
  | cons request requests ih =>
    rw [List.forall_mem_cons] at hrequests
    have hstep := session.answer_step request
    exact ih (h.step htext hbound hrequests.1 hstep) hrequests.2

/-- Replaced functions take effect in formulas that call them.  After a build
that did not find its formula in the cache, and any run in which functions are
replaced that were not folded in the build, the formula gives in every call
what a formula gives that is built afresh.  If no constants are bound, a
calculation of the same text gives it too, although it finds the old formula
in the cache. -/
theorem replacements_take_effect (session : Session) {text : String}
    {constants : Option Variables} {bound : Constants} {formula : Formula} (keptAs : String)
    (requests : List Request)
    (hbound : bindConstants session.engine.options.caseSensitive (constants.getD .empty) =
      .ok bound)
    (hnew : ∀ old, ¬session.engine.cache.Holds (cacheKey text bound) old)
    (hbuild : (session.engine.build text constants).1 = .ok formula)
    (hrequests : ∀ request ∈ requests, request.Replaces session.engine.functions
      (foldedNames session.engine.options session.engine.functions text bound)) :
    let last := (session.answerAll (.build text constants keptAs :: requests)).2.engine
    (∃ fresh, (last.withoutCache.build text constants).1 = .ok fresh ∧
        formula.BehavesLike fresh) ∧
      (bound.isEmpty = true → ∀ vars,
        (last.calculate text vars).1 = (last.withoutCache.calculate text vars).1) := by
  intro last
  obtain ⟨hnonblank, hprepared⟩ := isPrepared_of_build hbuild hbound hnew
  have htext : IsPlainText text := isPlainText_of_prepare hprepared.1
  have hstart : Follows session.engine text bound session.engine := by
    refine ⟨rfl, .refl _ _, fun hnone old hold => ?_⟩
    rw [cacheKey_of_isEmpty text hnone] at hnew
    exact absurd hold (hnew old)
  have hlast : Follows session.engine text bound last :=
    answerAll_follows _ hstart htext hbound (List.forall_mem_cons.mpr ⟨trivial, hrequests⟩)
  exact ⟨hlast.exists_fresh hnonblank hbound hprepared, hlast.calculate_eq hbound⟩

/-- A function that gives the first of its two arguments. -/
def firstOfTwo : Function := .fixed 2 fun arguments => .ok (arguments.headD .zero)

/-- A function that gives the last of its two arguments. -/
def lastOfTwo : Function := .fixed 2 fun arguments => .ok (arguments.getLastD .zero)

/-- A session with two overwritable functions. -/
def replaceable : Session :=
  let options : Options := { defaultFunctions := false, defaultConstants := false }
  ⟨{ Engine.new options .zero with
      functions := ⟨false, [⟨"f", firstOfTwo, true⟩, ⟨"g", firstOfTwo, true⟩]⟩ }, []⟩

/-- The call of `f` is folded, and `g` is replaced. -/
def replaceG : List Request :=
  [.calculate "f(1, 2) + g(x, 2)" ⟨[("x", .zero)]⟩, .registerFunction "G" lastOfTwo true]

theorem replacements_take_effect_of_open_call :
    ∃ formula, (replaceable.engine.build "f(1, 2) + g(x, 2)" none).1 = .ok formula ∧
      let last := (replaceable.answerAll (.build "f(1, 2) + g(x, 2)" none "a" :: replaceG)).2.engine
      (∃ fresh, (last.withoutCache.build "f(1, 2) + g(x, 2)" none).1 = .ok fresh ∧
        formula.BehavesLike fresh) ∧
      (last.calculate "f(1, 2) + g(x, 2)" ⟨[("x", .zero)]⟩).1.toOption = some (.ofInt64 3) := by
  cases hbuild : (replaceable.engine.build "f(1, 2) + g(x, 2)" none).1 with
  | error failure =>
    have hok : (replaceable.engine.build "f(1, 2) + g(x, 2)" none).1.isOk = true := by
      decide +kernel
    rw [hbuild] at hok
    cases hok
  | ok formula =>
    have hfolded : foldedNames replaceable.engine.options replaceable.engine.functions
        "f(1, 2) + g(x, 2)" (.empty false) = ["f"] := by decide +kernel
    have heffect := @replacements_take_effect replaceable "f(1, 2) + g(x, 2)" none (.empty false)
      formula "a" replaceG rfl (fun _ => Cache.not_holds_of_slots_eq_nil rfl) hbuild (by
        rw [hfolded]
        refine List.forall_mem_cons.mpr ⟨trivial, List.forall_mem_singleton.mpr (.inr ?_)⟩
        exact ⟨⟨"g", firstOfTwo, true⟩, rfl, fun _ => ⟨rfl, rfl, rfl, by decide⟩⟩)
    refine ⟨formula, rfl, heffect.1, ?_⟩
    rw [heffect.2 rfl]
    decide +kernel

/-- A build that folds its call of `f`, and then another function `f`. -/
def replaceF : List Request :=
  [.build "f(1, 2)" none "a", .registerFunction "f" lastOfTwo true]

/-- The old formula and the cache give the value of the function that was
replaced. -/
theorem folded_call_keeps_value :
    let last := (replaceable.answerAll replaceF).2.engine
    last.options.optimizerEnabled = true ∧
      (replaceable.engine.registerFunction "f" lastOfTwo true).isOk = true ∧
      (∃ formula fresh, (replaceable.engine.build "f(1, 2)" none).1.toOption = some formula ∧
        (last.withoutCache.build "f(1, 2)" none).1.toOption = some fresh ∧
        (last.call formula .empty).toOption = some (.ofInt64 1) ∧
        (last.call fresh .empty).toOption = some (.ofInt64 2)) ∧
      (last.calculate "f(1, 2)" .empty).1.toOption = some (.ofInt64 1) ∧
      (last.withoutCache.calculate "f(1, 2)" .empty).1.toOption = some (.ofInt64 2) := by
  intro last
  have hearlier : ((replaceable.engine.build "f(1, 2)" none).1.toOption.bind
      fun formula => (last.call formula .empty).toOption) = some (.ofInt64 1) := by
    decide +kernel
  have hafresh : ((last.withoutCache.build "f(1, 2)" none).1.toOption.bind
      fun formula => (last.call formula .empty).toOption) = some (.ofInt64 2) := by
    decide +kernel
  obtain ⟨formula, hformula, hvalue⟩ := Option.bind_eq_some_iff.mp hearlier
  obtain ⟨fresh, hfresh, hvalue'⟩ := Option.bind_eq_some_iff.mp hafresh
  exact ⟨by decide +kernel, by decide +kernel, ⟨formula, fresh, hformula, hfresh, hvalue, hvalue'⟩,
    by decide +kernel, by decide +kernel⟩

end Session

end FormulaEngine
