import FormulaEngine.Proofs.Engine.Modes
import Mathlib.Algebra.GroupWithZero.Nat
import Mathlib.Data.List.Dedup
import Mathlib.Data.List.Perm.Subperm

/-!
# One build for each key

While the cache has room for all keys that are asked for, and is not cleared,
every formula is built once.

* `Session.asked?` is what a request has to do with a key: which one it asks
  for, whether its text can be read at that moment, and how often it builds.
  `Session.askedAll` is the log of a run.
* `Engine.Collects` is the invariant.  The cache is a recency list that is
  never trimmed.
* `Records` says what a log does to such a list: a key gets its formula with
  the first request whose text can be read, and never loses it.
  `Session.answerAll_records` is the run, and says that no build is missing
  from the log.

`one_build_for_each_key` is the result.
-/

namespace FormulaEngine

open Text

/-! ## What a request asks for -/

/-- A text with the constants to put in place of their names. -/
structure Wanted where
  text : String
  bound : Constants

/-- The key of the formula. -/
def Wanted.key (wanted : Wanted) : String := Engine.cacheKey wanted.text wanted.bound

/-- The formula that a request asks for, unless it is refused before that. -/
def Engine.wanted? (engine : Engine) : Request → Option Wanted
  | .calculate text vars =>
    if isBlank text then none
    else
      match engine.acceptVariables vars with
      | .error _ => none
      | .ok _ => some ⟨text, .empty engine.options.caseSensitive⟩
  | .build text constants _ =>
    if isBlank text then none
    else
      match bindConstants engine.options.caseSensitive (constants.getD .empty) with
      | .error _ => none
      | .ok bound => some ⟨text, bound⟩
  | _ => none

/-- A request for a formula: its key, whether the text can be read, and how
many formulas are built for it. -/
structure Asked where
  key : String
  isReadable : Bool
  builds : Nat
  deriving DecidableEq

namespace Session

/-- The engine answers the request for a formula. -/
def asked? (session : Session) (request : Request) : Option Asked :=
  (session.engine.wanted? request).map fun wanted =>
    ⟨wanted.key, (session.engine.parse wanted.text wanted.bound).isOk,
      (session.answer request).2.engine.builds - session.engine.builds⟩

/-- The requests for formulas in a run. -/
def askedAll (session : Session) : List Request → List Asked
  | [] => []
  | request :: requests =>
    (session.asked? request).toList ++ (session.answer request).2.askedAll requests

end Session

/-- The keys for which some text could be read. -/
def readKeys (log : List Asked) : List String := (log.filter Asked.isReadable).map Asked.key

/-- How many formulas were built for a key. -/
def buildsOf (key : String) (log : List Asked) : Nat :=
  ((log.filter fun asked => asked.key == key).map Asked.builds).sum

theorem mem_readKeys_append {key : String} {log later : List Asked} :
    key ∈ readKeys (log ++ later) ↔ key ∈ readKeys log ∨ key ∈ readKeys later := by
  rw [readKeys, List.filter_append, List.map_append, List.mem_append]
  rfl

theorem buildsOf_append (key : String) (log later : List Asked) :
    buildsOf key (log ++ later) = buildsOf key log + buildsOf key later := by
  rw [buildsOf, List.filter_append, List.map_append, List.sum_append]
  rfl

/-! ## Logs and lists -/

/-- What a log makes of a list of formulas. -/
structure Records (list : Recency Formula) (log : List Asked) (after : Recency Formula) :
    Prop where
  kept : ∀ key formula, list.find? key = some formula → after.find? key = some formula
  held : ∀ key, (after.find? key).isSome = true ↔
    (list.find? key).isSome = true ∨ key ∈ readKeys log
  builds : ∀ key, buildsOf key log =
    if list.find? key = none ∧ key ∈ readKeys log then 1 else 0

/-- Without requests for formulas the keys have the same formulas. -/
theorem Records.nil {list after : Recency Formula} (h : ∀ key, after.find? key = list.find? key) :
    Records list [] after := by
  refine ⟨fun key formula hkey => (h key).trans hkey, fun key => ?_, fun key => ?_⟩
  · rw [h]
    simp [readKeys]
  · simp [readKeys, buildsOf]

/-- One request for a formula.  The other keys have the same formulas. -/
theorem Records.single {list after : Recency Formula} {asked : Asked}
    (others : ∀ key, key ≠ asked.key → after.find? key = list.find? key)
    (kept : ∀ formula, list.find? asked.key = some formula →
      after.find? asked.key = some formula)
    (held : (after.find? asked.key).isSome = true ↔
      (list.find? asked.key).isSome = true ∨ asked.isReadable = true)
    (builds : asked.builds = if list.find? asked.key = none ∧ asked.isReadable then 1 else 0) :
    Records list [asked] after := by
  have hread : ∀ key, key ∈ readKeys [asked] ↔ key = asked.key ∧ asked.isReadable = true := by
    intro key
    cases hreadable : asked.isReadable <;> simp [readKeys, hreadable]
  refine ⟨fun key formula hkey => ?_, fun key => ?_, fun key => ?_⟩
  · by_cases hsame : key = asked.key
    · exact hsame ▸ kept formula (hsame ▸ hkey)
    · exact (others key hsame).trans hkey
  · rw [hread]
    by_cases hsame : key = asked.key
    · simp [hsame, held]
    · simp [hsame, others key hsame]
  · simp only [hread]
    by_cases hsame : key = asked.key
    · simp [hsame, buildsOf, builds]
    · simp [hsame, buildsOf, Ne.symm hsame]

theorem Records.append {list middle after : Recency Formula} {log later : List Asked}
    (h : Records list log middle) (h' : Records middle later after) :
    Records list (log ++ later) after := by
  refine ⟨fun key formula hkey => h'.kept key formula (h.kept key formula hkey), fun key => ?_,
    fun key => ?_⟩
  · rw [h'.held, h.held, mem_readKeys_append, or_assoc]
  · have hheld := h.held key
    simp only [buildsOf_append, h.builds, h'.builds, mem_readKeys_append]
    cases hkey : list.find? key with
    | some formula =>
      rw [h.kept key formula hkey]
      simp
    | none =>
      rw [hkey] at hheld
      by_cases hread : key ∈ readKeys log
      · have hsome : (middle.find? key).isSome = true := hheld.mpr (.inr hread)
        simp [hread, Option.isSome_iff_ne_none.mp hsome]
      · have hnone : middle.find? key = none := by
          simpa [hread, Option.isSome_iff_ne_none] using hheld
        simp [hread, hnone]

namespace Engine

/-! ## One build -/

/-- The engine has its formulas in a list, which has room for all keys that
may be asked for. -/
structure Collects (keys : List String) (engine : Engine) (list : Recency Formula) : Prop where
  enabled : engine.options.cacheEnabled = true
  refines : engine.cache.Refines list
  among : ∀ pair ∈ list.pairs, pair.1 ∈ keys
  room : keys.length ≤ list.maximumSize

variable {keys : List String} {engine : Engine} {list : Recency Formula}

/-- A key that is not in the list finds room there. -/
theorem Collects.length_lt (h : Collects keys engine list) {key : String} (hkey : key ∈ keys)
    (hnew : list.find? key = none) : list.pairs.length < list.maximumSize := by
  have hfresh : key ∉ list.pairs.map Prod.fst := by
    intro hmem
    obtain ⟨pair, hpair, rfl⟩ := List.mem_map.mp hmem
    simpa using List.lookup_eq_none_iff.mp hnew pair hpair
  have hnodup : (key :: list.pairs.map Prod.fst).Nodup :=
    List.nodup_cons.mpr ⟨hfresh, h.refines.nodup⟩
  have hsubset : key :: list.pairs.map Prod.fst ⊆ keys :=
    List.cons_subset.mpr ⟨hkey, List.forall_mem_map.mpr h.among⟩
  have hlength := (List.subperm_of_subset hnodup hsubset).length_le
  rw [List.length_cons, List.length_map] at hlength
  exact Nat.lt_of_lt_of_le hlength h.room

/-- A use brings no key into the list. -/
theorem among_use {key : String} {formula : Formula} (h : ∀ pair ∈ list.pairs, pair.1 ∈ keys)
    (hheld : list.find? key = some formula) :
    ∀ pair ∈ (list.use key formula).pairs, pair.1 ∈ keys := by
  obtain ⟨newer, older, hpairs, _⟩ := List.lookup_eq_some_iff.mp hheld
  have hmem : (key, formula) ∈ list.pairs := hpairs ▸ List.mem_append_right _ List.mem_cons_self
  exact List.forall_mem_cons.mpr ⟨h _ hmem, fun pair hpair => h pair (List.mem_filter.mp hpair).1⟩

/-- What the request for a formula does to the list. -/
theorem Collects.formula (h : Collects keys engine list) {wanted : Wanted}
    (hkey : wanted.key ∈ keys) :
    let outcome := engine.formula wanted.text wanted.key wanted.bound
    ∃ after, Collects keys outcome.2 after ∧ outcome.1.toOption = after.find? wanted.key ∧
      engine.builds ≤ outcome.2.builds ∧
      Records list [⟨wanted.key, (engine.parse wanted.text wanted.bound).isOk,
        outcome.2.builds - engine.builds⟩] after := by
  obtain ⟨hadded, hafter⟩ := h.refines.getOrAdd wanted.key
    (engine.construct wanted.text wanted.bound).1
  rw [formula_of_cacheEnabled h.enabled]
  dsimp only
  rw [hadded]
  unfold Recency.getOrAdd at hafter ⊢
  cases hheld : list.find? wanted.key with
  | some formula =>
    rw [hheld] at hafter
    have hsame := Recency.find?_use hheld
    refine ⟨_, ⟨h.enabled, hafter, ?_, h.room⟩, ?_, Nat.le_refl _, .single ?_ ?_ ?_ ?_⟩
    · exact among_use h.among hheld
    · rw [hsame, hheld]
      rfl
    · exact fun other _ => hsame other
    · exact fun formula hformula => (hsame _).trans hformula
    · simp [hsame, hheld]
    · simp [hheld]
  | none =>
    rw [hheld] at hafter
    rcases engine.construct_cases wanted.text wanted.bound with
      ⟨failure, hparse, hconstruct⟩ | ⟨tree, formula, hparse, hconstruct⟩
    · -- A failed build leaves no slot.
      rw [hconstruct] at hafter ⊢
      refine ⟨list, ⟨h.enabled, hafter, h.among, h.room⟩, hheld.symm, Nat.le_refl _,
        .single (fun _ _ => rfl) (fun _ hformula => hformula) ?_ ?_⟩
      · simp [hheld, hparse, Except.isOk, Except.toBool]
      · simp [hheld, hparse, Except.isOk, Except.toBool]
    · rw [hconstruct] at hafter ⊢
      dsimp only at hafter ⊢
      -- The list has room for one more key, so it is not trimmed.
      rw [Recency.put_eq_of_lt (h.length_lt hkey hheld)] at hafter
      have hfind := @Recency.find?_cons _ list wanted.key formula
      refine ⟨_, ⟨h.enabled, hafter, ?_, h.room⟩, ?_, Nat.le_succ _, .single ?_ ?_ ?_ ?_⟩
      · exact List.forall_mem_cons.mpr ⟨hkey, h.among⟩
      · rw [hfind, if_pos rfl]
        rfl
      · exact fun other hother => (hfind other).trans (if_neg hother)
      · rw [hheld]
        exact nofun
      · simp [hfind, hparse, Except.isOk, Except.toBool]
      · simp [hheld, hparse, Except.isOk, Except.toBool]

/-! ## Requests -/

/-- A calculation leaves the engine as its formula does. -/
theorem snd_calculate (engine : Engine) (text : String) (vars : Variables) :
    (engine.calculate text vars).2 =
      match engine.wanted? (.calculate text vars) with
      | some wanted => (engine.formula wanted.text wanted.key wanted.bound).2
      | none => engine := by
  rw [calculate_eq, wanted?]
  by_cases hblank : isBlank text = true
  · rw [if_pos hblank, if_pos hblank]
  · rw [if_neg hblank, if_neg hblank]
    cases engine.acceptVariables vars <;> rfl

/-- A build gives the formula that it asks for. -/
theorem build_eq (engine : Engine) (text : String) (constants : Option Variables)
    (keptAs : String) :
    engine.build text constants =
      match engine.wanted? (.build text constants keptAs) with
      | some wanted => engine.formula wanted.text wanted.key wanted.bound
      | none => ((engine.build text constants).1, engine) := by
  rw [build, wanted?]
  by_cases hblank : isBlank text = true
  · rw [if_pos hblank, if_pos hblank]
  · rw [if_neg hblank, if_neg hblank]
    cases bindConstants engine.options.caseSensitive (constants.getD .empty) <;> rfl

/-- A request that asks for a formula leaves the engine as the formula does. -/
theorem engine_answer_of_wanted {session : Session} {request : Request} {wanted : Wanted}
    (h : session.engine.wanted? request = some wanted) :
    (session.answer request).2.engine =
      (session.engine.formula wanted.text wanted.key wanted.bound).2 := by
  cases request with
  | calculate text vars =>
    change (session.engine.calculate text vars).2 = _
    rw [snd_calculate, h]
  | build text constants keptAs =>
    rw [Session.engine_answer_build, build_eq session.engine text constants keptAs, h]
  | call _ _ | registerFunction _ _ _ | registerConstant _ _ _ | cacheGet _
  | cacheContains _ | cacheClear => cases h

/-- Other requests change no formula, clearings apart. -/
theorem Collects.answer_of_not_wanted {session : Session} (h : Collects keys session.engine list)
    {request : Request} (hclear : request ≠ .cacheClear)
    (hnone : session.engine.wanted? request = none) :
    ∃ after, Collects keys (session.answer request).2.engine after ∧
      (session.answer request).2.engine.builds = session.engine.builds ∧ Records list [] after := by
  have hrefl : Records list [] list := .nil fun _ => rfl
  cases request with
  | calculate text vars =>
    change ∃ after, Collects keys (session.engine.calculate text vars).2 after ∧
      (session.engine.calculate text vars).2.builds = _ ∧ _
    rw [snd_calculate, hnone]
    exact ⟨list, h, rfl, hrefl⟩
  | build text constants keptAs =>
    rw [Session.engine_answer_build, build_eq session.engine text constants keptAs, hnone]
    exact ⟨list, h, rfl, hrefl⟩
  | call kept vars =>
    rw [Session.answer]
    split <;> exact ⟨list, h, rfl, hrefl⟩
  | registerFunction name function isOverwritable =>
    rw [Session.answer, registerFunction]
    cases session.engine.functions.register name function isOverwritable with
    | error e => exact ⟨list, h, rfl, hrefl⟩
    | ok functions => exact ⟨list, ⟨h.enabled, h.refines, h.among, h.room⟩, rfl, hrefl⟩
  | registerConstant name value isOverwritable =>
    rw [Session.answer, registerConstant]
    cases session.engine.constants.register name value isOverwritable with
    | error e => exact ⟨list, h, rfl, hrefl⟩
    | ok constants => exact ⟨list, ⟨h.enabled, h.refines, h.among, h.room⟩, rfl, hrefl⟩
  | cacheGet key =>
    rw [Session.answer]
    have hafter := (h.refines.get key).2
    unfold Recency.get at hafter
    cases hheld : list.find? key with
    | none =>
      rw [hheld] at hafter
      exact ⟨list, ⟨h.enabled, hafter, h.among, h.room⟩, rfl, hrefl⟩
    | some formula =>
      rw [hheld] at hafter
      exact ⟨_, ⟨h.enabled, hafter, among_use h.among hheld, h.room⟩, rfl,
        .nil (Recency.find?_use hheld)⟩
  | cacheContains key => exact ⟨list, h, rfl, hrefl⟩
  | cacheClear => exact absurd rfl hclear

end Engine

namespace Session

open Engine (Collects)

variable {keys : List String} {session : Session} {list : Recency Formula}

/-- One request. -/
theorem answer_records (h : Collects keys session.engine list) {request : Request}
    (hclear : request ≠ .cacheClear)
    (hkeys : ∀ asked ∈ (session.asked? request).toList, asked.key ∈ keys) :
    ∃ after, Collects keys (session.answer request).2.engine after ∧
      Records list (session.asked? request).toList after ∧
      (session.answer request).2.engine.builds =
        session.engine.builds + ((session.asked? request).toList.map Asked.builds).sum := by
  unfold asked? at hkeys ⊢
  cases hwanted : session.engine.wanted? request with
  | none =>
    obtain ⟨after, hafter, hbuilds, hrecords⟩ := h.answer_of_not_wanted hclear hwanted
    exact ⟨after, hafter, hrecords, hbuilds⟩
  | some wanted =>
    rw [hwanted] at hkeys
    obtain ⟨after, hafter, _, hle, hrecords⟩ := h.formula (hkeys _ (List.mem_singleton.mpr rfl))
    rw [Engine.engine_answer_of_wanted hwanted]
    refine ⟨after, hafter, hrecords, ?_⟩
    exact (Nat.add_sub_of_le hle).symm

/-- A run of requests. -/
theorem answerAll_records {requests : List Request} (h : Collects keys session.engine list)
    (hclear : .cacheClear ∉ requests)
    (hkeys : ∀ asked ∈ session.askedAll requests, asked.key ∈ keys) :
    ∃ after, Collects keys (session.answerAll requests).2.engine after ∧
      Records list (session.askedAll requests) after ∧
      (session.answerAll requests).2.engine.builds =
        session.engine.builds + ((session.askedAll requests).map Asked.builds).sum := by
  induction requests generalizing session list with
  | nil => exact ⟨list, h, .nil fun _ => rfl, rfl⟩
  | cons request requests ih =>
    rw [askedAll, List.forall_mem_append] at hkeys
    obtain ⟨hfirst, hrest⟩ := not_or.mp (List.mem_cons.not.mp hclear)
    obtain ⟨middle, hmiddle, hrecords, hbuilds⟩ := answer_records h (Ne.symm hfirst) hkeys.1
    obtain ⟨after, hafter, hlater, hbuilds'⟩ := ih hmiddle hrest hkeys.2
    refine ⟨after, hafter, hrecords.append hlater, ?_⟩
    rw [askedAll, List.map_append, List.sum_append, ← Nat.add_assoc, ← hbuilds]
    exact hbuilds'

theorem answerAll_append (session : Session) (requests later : List Request) :
    (session.answerAll (requests ++ later)).2 =
      ((session.answerAll requests).2.answerAll later).2 := by
  induction requests generalizing session with
  | nil => rfl
  | cons request requests ih => exact ih (session.answer request).2

theorem askedAll_append (session : Session) (requests later : List Request) :
    session.askedAll (requests ++ later) =
      session.askedAll requests ++ (session.answerAll requests).2.askedAll later := by
  induction requests generalizing session with
  | nil => rfl
  | cons request requests ih =>
    rw [List.cons_append, askedAll, askedAll, ih, List.append_assoc]
    rfl

/-- A build with a known key, or a text that can be read, gives the formula
that the cache shows at the end of the run. -/
theorem build_eq_ok {text : String} {constants : Option Variables} {keptAs : String}
    {later : List Request} {wanted : Wanted} (h : Collects keys session.engine list)
    (hclear : .cacheClear ∉ later)
    (hkeys : ∀ asked ∈ session.askedAll (.build text constants keptAs :: later),
      asked.key ∈ keys)
    (hwanted : session.engine.wanted? (.build text constants keptAs) = some wanted)
    (hread : (list.find? wanted.key).isSome = true ∨
      wanted.key ∈ readKeys (session.asked? (.build text constants keptAs)).toList) :
    ∃ formula, (session.engine.build text constants).1 = .ok formula ∧
      (session.answerAll (.build text constants keptAs :: later)).2.engine.cache.peek?
        wanted.key = some formula := by
  have hasked := congrArg (Option.map fun wanted : Wanted => (⟨wanted.key,
    (session.engine.parse wanted.text wanted.bound).isOk,
    (session.answer (.build text constants keptAs)).2.engine.builds -
      session.engine.builds⟩ : Asked)) hwanted
  have hafter := Engine.engine_answer_of_wanted hwanted
  rw [askedAll, List.forall_mem_append, asked?, hasked] at hkeys
  rw [asked?, hasked, hafter] at hread
  obtain ⟨middle, hmiddle, hresult, _, hrecords⟩ :=
    h.formula (hkeys.1 _ (List.mem_singleton.mpr rfl))
  obtain ⟨formula, hformula⟩ := Option.isSome_iff_exists.mp ((hrecords.held _).mpr hread)
  rw [hformula] at hresult
  rw [← hafter] at hmiddle
  -- The requests after this one keep the formula.
  obtain ⟨last, hlast, hlater, _⟩ := answerAll_records hmiddle hclear hkeys.2
  refine ⟨formula, ?_, ?_⟩
  · rw [Engine.build_eq session.engine text constants keptAs, hwanted]
    dsimp only
    cases houtcome : (session.engine.formula wanted.text wanted.key wanted.bound).1 with
    | error failure =>
      rw [houtcome] at hresult
      cases hresult
    | ok built =>
      rw [houtcome] at hresult
      exact congrArg Except.ok (Option.some.inj hresult)
  · exact (hlast.refines.peek?_eq _).trans (hlater.kept _ formula hformula)

end Session

namespace Engine

/-- An engine with an empty cache has its formulas in an empty list. -/
theorem collects_of_slots_eq_nil {keys : List String} {engine : Engine}
    (hempty : engine.cache.slots = []) (henabled : engine.options.cacheEnabled = true)
    (hroom : keys.length ≤ engine.cache.maximumSize) :
    Collects keys engine ⟨engine.cache.maximumSize, engine.cache.reductionSize, []⟩ := by
  refine ⟨henabled, ⟨rfl, rfl, [], ?_, Cache.ordered_nil _⟩, nofun, hroom⟩
  rw [hempty]

/-- The same text and the same numbers have the same key. -/
theorem cacheKey_congr {caseSensitive : Bool} (text : String) {constants constants' : Variables}
    {bound bound' : Constants} (hbound : bindConstants caseSensitive constants = .ok bound)
    (hbound' : bindConstants caseSensitive constants' = .ok bound')
    (hsame : SameNumbers (constants.fold caseSensitive) (constants'.fold caseSensitive)) :
    cacheKey text bound = cacheKey text bound' := by
  obtain ⟨rfl, hnodup⟩ := bindConstants_eq_ok hbound
  obtain ⟨rfl, hnodup'⟩ := bindConstants_eq_ok hbound'
  have hdistinct := (map_name_boundTo caseSensitive (constants.fold caseSensitive)).symm ▸ hnodup
  have hparts := keyParts_eq_iff.mpr ((map_keyPair_sortedEntries_eq_iff hdistinct).mpr
    ((@perm_map_keyPair_iff caseSensitive _ _ hnodup hnodup').mpr hsame))
  generalize boundTo caseSensitive (constants.fold caseSensitive) = bound,
    boundTo caseSensitive (constants'.fold caseSensitive) = bound' at hparts
  cases hempty : bound.isEmpty with
  | true =>
    have hempty' := keyParts_eq_nil_iff.mp (hparts ▸ keyParts_eq_nil_iff.mpr hempty)
    rw [cacheKey_of_isEmpty text hempty, cacheKey_of_isEmpty text hempty']
  | false =>
    have hempty' : bound'.isEmpty = false := Bool.eq_false_iff.mpr fun hempty' =>
      keyParts_ne_nil hempty (hparts ▸ keyParts_eq_nil_iff.mpr hempty')
    rw [← String.toList_inj, toList_cacheKey hempty, toList_cacheKey hempty', hparts]

end Engine

namespace Session

/-- Every formula is built once.  In a run on an engine with an empty cache,
which has room for all keys that are asked for and is not cleared, there is
one build for each key for which some text could be read, and none for the
others.  All builds with that key, from the first such request on, give one
and the same formula.  The key is the same for the same text and constants,
whatever their order, the case of their names and the form of their
numbers. -/
theorem one_build_for_each_key (session : Session) (requests : List Request)
    (hempty : session.engine.cache.slots = [])
    (henabled : session.engine.options.cacheEnabled = true)
    (hclear : .cacheClear ∉ requests)
    (hfew : ((session.askedAll requests).map Asked.key).dedup.length ≤
      session.engine.cache.maximumSize) :
    let log := session.askedAll requests
    let last := (session.answerAll requests).2
    last.engine.builds = session.engine.builds + (log.map Asked.builds).sum ∧
    (∀ key, buildsOf key log = if key ∈ readKeys log then 1 else 0) ∧
    (∀ key ∈ readKeys log, ∃ formula, ∀ before later text constants keptAs,
      requests = before ++ .build text constants keptAs :: later →
      key ∈ readKeys (session.askedAll (before ++ [.build text constants keptAs])) →
      ((session.answerAll before).2.engine.wanted? (.build text constants keptAs)).map
        Wanted.key = some key →
      ((session.answerAll before).2.engine.build text constants).1 = .ok formula) ∧
    ∀ text constants constants' bound bound',
      Engine.bindConstants session.engine.options.caseSensitive constants = .ok bound →
      Engine.bindConstants session.engine.options.caseSensitive constants' = .ok bound' →
      Engine.SameNumbers (constants.fold session.engine.options.caseSensitive)
        (constants'.fold session.engine.options.caseSensitive) →
      Engine.cacheKey text bound = Engine.cacheKey text bound' := by
  intro log last
  have hkeys : ∀ asked ∈ session.askedAll requests,
      asked.key ∈ ((session.askedAll requests).map Asked.key).dedup :=
    fun asked hmem => List.mem_dedup.mpr (List.mem_map_of_mem hmem)
  have hstart := Engine.collects_of_slots_eq_nil hempty henabled hfew
  generalize ((session.askedAll requests).map Asked.key).dedup = keys at hkeys hstart
  obtain ⟨list, hlist, hrecords, hbuilds⟩ := answerAll_records hstart hclear hkeys
  refine ⟨hbuilds, fun key => ?_, fun key hread => ?_, ?_⟩
  · have hnone : Recency.find? ⟨session.engine.cache.maximumSize,
        session.engine.cache.reductionSize, ([] : List (String × Formula))⟩ key = none := rfl
    refine (hrecords.builds key).trans ?_
    simp only [hnone, true_and]
    rfl
  · obtain ⟨formula, hformula⟩ := Option.isSome_iff_exists.mp ((hrecords.held key).mpr (.inr hread))
    refine ⟨formula, fun before later text constants keptAs hsplit hknown hwanted => ?_⟩
    subst hsplit
    obtain ⟨wanted, hasked, rfl⟩ := Option.map_eq_some_iff.mp hwanted
    rw [askedAll_append, List.forall_mem_append] at hkeys
    have hclear' := fun hmem => hclear (List.mem_append_left _ hmem)
    obtain ⟨middle, hmiddle, hbefore, _⟩ := answerAll_records hstart hclear' hkeys.1
    rw [askedAll_append, mem_readKeys_append, askedAll, askedAll, List.append_nil] at hknown
    have hread := hknown.imp_left fun hread => (hbefore.held wanted.key).mpr (.inr hread)
    obtain ⟨formula', hbuild, hpeek⟩ := build_eq_ok hmiddle
      (fun hmem => hclear (List.mem_append_right _ (List.mem_cons_of_mem _ hmem))) hkeys.2
      hasked hread
    rw [← answerAll_append, hlist.refines.peek?_eq, hformula] at hpeek
    exact hbuild.trans (congrArg Except.ok (Option.some.inj hpeek).symm)
  · exact fun text _ _ _ _ hbound hbound' hsame => Engine.cacheKey_congr text hbound hbound' hsame

/-- A session whose cache has room for two formulas. -/
def roomForTwo : Session :=
  .new { cacheMaximumSize := 2, defaultFunctions := false, defaultConstants := false } .zero

/-- A text that cannot be read, and one that is calculated first and built
twice after that. -/
def twoTexts : List Request :=
  [.calculate "x + * k" .empty, .calculate "x + k" ⟨[("x", .one), ("k", .one)]⟩,
    .registerConstant "k" (.ofInt64 5) true, .build "x + k" none "f",
    .calculate "x + * k" .empty, .build "x + k" (some .empty) "g"]

theorem one_build_for_each_key_of_two :
    .cacheClear ∉ twoTexts ∧
      ((roomForTwo.askedAll twoTexts).map Asked.key).dedup = ["x + * k", "x + k"] ∧
      buildsOf "x + * k" (roomForTwo.askedAll twoTexts) = 0 ∧
      buildsOf "x + k" (roomForTwo.askedAll twoTexts) = 1 ∧
      ∃ formula,
        ((roomForTwo.answerAll (twoTexts.take 3)).2.engine.build "x + k" none).1 = .ok formula ∧
        ((roomForTwo.answerAll (twoTexts.take 5)).2.engine.build "x + k" (some .empty)).1 =
          .ok formula := by
  have hlog : roomForTwo.askedAll twoTexts =
      [⟨"x + * k", false, 0⟩, ⟨"x + k", true, 1⟩, ⟨"x + k", true, 0⟩, ⟨"x + * k", false, 0⟩,
        ⟨"x + k", true, 0⟩] := by decide +kernel
  have hclear : .cacheClear ∉ twoTexts := by simp [twoTexts]
  have hkeys : ((roomForTwo.askedAll twoTexts).map Asked.key).dedup = ["x + * k", "x + k"] := by
    rw [hlog]
    decide
  obtain ⟨_, hbuilds, hformulas, _⟩ :=
    one_build_for_each_key roomForTwo twoTexts rfl rfl hclear (hkeys ▸ Nat.le_refl 2)
  obtain ⟨formula, hformula⟩ := hformulas "x + k" (by rw [hlog]; decide)
  refine ⟨hclear, hkeys, ?_, ?_, formula, ?_, ?_⟩
  · rw [hbuilds, hlog]
    decide
  · rw [hbuilds, hlog]
    decide
  · exact hformula _ [.calculate "x + * k" .empty, .build "x + k" (some .empty) "g"] _ _ "f" rfl
      (by decide +kernel) (by decide +kernel)
  · exact hformula _ [] _ _ "g" rfl (by decide +kernel) (by decide +kernel)

end Session

end FormulaEngine
