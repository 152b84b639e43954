import FormulaEngine.Cache.Script
import Mathlib.Data.List.Forall2
import Mathlib.Data.List.Induction
import Mathlib.Data.List.Nodup

/-!
# A cache is a recency list

A cache stamps its slots with the time of their last use and sorts them when
it drops some.  Seen from outside, as long as builds do not use the cache
themselves, it is a plain list of keys with values, the most recently used
first.

* `Recency.access` is one access to such a list.  A key that is used moves to
  the front, a new one is put there, and a list that has become too long is
  cut off at its end.
* `Refines` relates a cache to its list: the list has the keys and values of
  the slots, in the order of the stamps.  No two stamps are equal, because the
  clock is ahead of all of them.
* `Refines.evict` is eviction: the slots that are dropped are the end of the
  list.  `Refines.access` is any access.

`trace_eq_recency` states it for runs: what is answered and what can be seen
after each access is the same for both.  `run_stepOf` says that the steps of
a script are such accesses, as long as builds have no inner steps.
-/

namespace FormulaEngine

/-! ## Accesses -/

/-- An access to a cache.  The build of an added value does not use the cache,
and gives the value or an error. -/
inductive Access (V E : Type) where
  | add (key : String) (built : Except E V)
  | get (key : String)
  | contains (key : String)
  | clear

/-- What comes of adding a value, and whether its build ran. -/
structure Added (V E : Type) where
  result : Except E V
  ran : Bool

/-- What an access answers. -/
inductive Outcome (V E : Type) where
  | added (outcome : Added V E)
  | got (value : Option V)
  | contained (answer : Bool)
  | cleared

/-- What can be seen of a cache without an access. -/
structure CacheView where
  size : Nat
  isEmpty : Bool
  contains : String → Bool

/-- The outcomes of a run of accesses, and the view after each. -/
def trace {S V E : Type} (access : S → Access V E → Outcome V E × S) (view : S → CacheView)
    (state : S) : List (Access V E) → List (Outcome V E × CacheView)
  | [] => []
  | first :: rest =>
    let (outcome, after) := access state first
    (outcome, view after) :: trace access view after rest

namespace Cache

variable {V E : Type}

/-- The value of a key, which is built if there is none. -/
def getOrAdd (cache : Cache V) (key : String) (built : Except E V) : Added V E × Cache V :=
  match cache.request key with
  | (.value stored, asked) => (⟨.ok stored, false⟩, asked)
  | (.vacant installed, asked) =>
    match built with
    | .ok value => (⟨.ok value, true⟩, asked.fill key installed value)
    | .error e => (⟨.error e, true⟩, asked.abandon key installed)

/-- The cache after an access. -/
def access (cache : Cache V) : Access V E → Outcome V E × Cache V
  | .add key built => (.added (cache.getOrAdd key built).1, (cache.getOrAdd key built).2)
  | .get key => (.got (cache.get key).1, (cache.get key).2)
  | .contains key => (.contained (cache.contains key), cache)
  | .clear => (.cleared, cache.clear)

/-- What can be seen of a cache. -/
def view (cache : Cache V) : CacheView := ⟨cache.size, cache.isEmpty, cache.contains⟩

end Cache

/-- Keys with their values, the most recently used first, and the sizes of the
cache that they stand for. -/
structure Recency (V : Type) where
  maximumSize : Nat
  reductionSize : Nat
  pairs : List (String × V)

namespace Recency

variable {V E : Type}

/-- The value of a key. -/
def find? (list : Recency V) (key : String) : Option V := list.pairs.lookup key

/-- A key that is used moves to the front. -/
def use (list : Recency V) (key : String) (value : V) : Recency V :=
  { list with pairs := (key, value) :: list.pairs.filter fun pair => pair.1 != key }

/-- A list that is too long keeps the most recently used keys. -/
def trim (list : Recency V) : Recency V :=
  if list.pairs.length ≤ list.maximumSize then list
  else { list with pairs := list.pairs.take (list.maximumSize - list.reductionSize) }

/-- A new key is put in front. -/
def put (list : Recency V) (key : String) (value : V) : Recency V :=
  trim { list with pairs := (key, value) :: list.pairs }

/-- The value of a key, which is built if there is none. -/
def getOrAdd (list : Recency V) (key : String) (built : Except E V) : Added V E × Recency V :=
  match list.find? key with
  | some value => (⟨.ok value, false⟩, list.use key value)
  | none =>
    match built with
    | .ok value => (⟨.ok value, true⟩, list.put key value)
    | .error e => (⟨.error e, true⟩, list)

/-- The value of a key, which is used if there is one. -/
def get (list : Recency V) (key : String) : Option V × Recency V :=
  match list.find? key with
  | some value => (some value, list.use key value)
  | none => (none, list)

/-- The list without its pairs. -/
def clear (list : Recency V) : Recency V := { list with pairs := [] }

/-- The list after an access. -/
def access (list : Recency V) : Access V E → Outcome V E × Recency V
  | .add key built => (.added (list.getOrAdd key built).1, (list.getOrAdd key built).2)
  | .get key => (.got (list.get key).1, (list.get key).2)
  | .contains key => (.contained (list.find? key).isSome, list)
  | .clear => (.cleared, list.clear)

/-- What can be seen of the list. -/
def view (list : Recency V) : CacheView :=
  ⟨list.pairs.length, list.pairs.isEmpty, fun key => (list.find? key).isSome⟩

variable {list : Recency V} {key : String}

theorem find?_cons (value : V) (other : String) :
    find? { list with pairs := (key, value) :: list.pairs } other =
      if other = key then some value else list.find? other := by
  rw [find?, List.lookup_cons]
  by_cases hother : other = key
  · simp [hother]
  · simp [beq_false_of_ne hother, hother, find?]

theorem lookup_filter {pairs : List (String × V)} {other : String} (h : other ≠ key) :
    (pairs.filter fun pair => pair.1 != key).lookup other = pairs.lookup other := by
  induction pairs with
  | nil => rfl
  | cons pair pairs ih =>
    rw [List.filter_cons, List.lookup_cons, ← ih]
    by_cases hpair : pair.1 = key
    · simp [hpair, beq_false_of_ne h]
    · rw [if_pos (bne_iff_ne.mpr hpair), List.lookup_cons]

/-- A use of a key keeps all values. -/
theorem find?_use {value : V} (h : list.find? key = some value) (other : String) :
    (list.use key value).find? other = list.find? other := by
  rw [use, find?, List.lookup_cons]
  by_cases hother : other = key
  · simp [hother, h]
  · rw [beq_false_of_ne hother]
    exact lookup_filter hother

/-- A new key in a list that has room for it. -/
theorem put_eq_of_lt {value : V} (h : list.pairs.length < list.maximumSize) :
    list.put key value = { list with pairs := (key, value) :: list.pairs } := by
  rw [put, trim, if_pos]
  exact Nat.succ_le_of_lt h

/-- A new key is there, unless the list keeps nothing. -/
theorem find?_put (value : V) :
    (list.put key value).find? key = some value ∨ (list.put key value).find? key = none := by
  rw [put, trim]
  split
  · exact .inl ((find?_cons value key).trans (if_pos rfl))
  · dsimp only [find?]
    cases list.maximumSize - list.reductionSize with
    | zero => exact .inr rfl
    | succ count =>
      rw [List.take_succ_cons, List.lookup_cons, beq_self_eq_true]
      exact .inl rfl

theorem result_getOrAdd (list : Recency V) (key : String) (built : Except E V) :
    (list.getOrAdd key built).1.result =
      match list.find? key with
      | some value => .ok value
      | none => built := by
  unfold getOrAdd
  cases list.find? key with
  | some value => rfl
  | none => cases built <;> rfl

/-- A key that is added twice has its first value the second time, or both
values are built. -/
theorem getOrAdd_again (list : Recency V) (key : String) (built built' : Except E V) :
    ((list.getOrAdd key built).2.getOrAdd key built').1.result =
        (list.getOrAdd key built).1.result ∨
      (list.getOrAdd key built).1.result = built ∧
        ((list.getOrAdd key built).2.getOrAdd key built').1.result = built' := by
  rw [result_getOrAdd, result_getOrAdd]
  unfold getOrAdd
  cases hkey : list.find? key with
  | some value =>
    dsimp only
    rw [find?_use hkey, hkey]
    exact .inl rfl
  | none =>
    cases built with
    | error e =>
      dsimp only
      rw [hkey]
      exact .inr ⟨rfl, rfl⟩
    | ok value =>
      have hput : (list.put key value).find? key = some value ∨
          (list.put key value).find? key = none := find?_put value
      dsimp only
      rcases hput with hkept | hdropped
      · rw [hkept]
        exact .inl rfl
      · rw [hdropped]
        exact .inr ⟨rfl, rfl⟩

end Recency

namespace Cache

variable {V E : Type}

/-! ## Slots in the order of their use -/

/-- The slots come with the newest first, all stamped before the time, and
hold the keys and values of the pairs. -/
structure Ordered (time : Nat) (slots : List (Slot V)) (pairs : List (String × V)) : Prop where
  newest : slots.Pairwise fun slot other => other.lastAccess < slot.lastAccess
  past : ∀ slot ∈ slots, slot.lastAccess < time
  distinct : (slots.map Slot.key).Nodup
  holds : List.Forall₂ (fun slot pair => slot.key = pair.1 ∧ slot.value = some pair.2) slots pairs

/-- The list has the slots of the cache in the order of their use. -/
structure Refines (cache : Cache V) (list : Recency V) : Prop where
  maximumSize : cache.maximumSize = list.maximumSize
  reductionSize : cache.reductionSize = list.reductionSize
  slots : ∃ ordered : List (Slot V),
    ordered.Perm cache.slots ∧ Ordered cache.clock ordered list.pairs

section

variable {time : Nat} {slots : List (Slot V)} {pairs : List (String × V)}

theorem ordered_nil (time : Nat) : Ordered time ([] : List (Slot V)) [] :=
  ⟨.nil, nofun, .nil, .nil⟩

theorem refines_new (maximumSize reductionSize : Nat) :
    Refines (new maximumSize reductionSize : Cache V) ⟨maximumSize, reductionSize, []⟩ :=
  ⟨rfl, rfl, [], .refl _, ordered_nil 0⟩

theorem Ordered.later {time' : Nat} (h : Ordered time slots pairs) (hle : time ≤ time') :
    Ordered time' slots pairs :=
  ⟨h.newest, fun slot hmem => Nat.lt_of_lt_of_le (h.past slot hmem) hle, h.distinct, h.holds⟩

/-- A slot that is stamped now goes in front. -/
theorem Ordered.cons (h : Ordered time slots pairs) {key : String} (installed : Nat) (value : V)
    (hnew : key ∉ slots.map Slot.key) :
    Ordered (time + 1) (⟨key, installed, some value, time⟩ :: slots) ((key, value) :: pairs) := by
  refine ⟨List.pairwise_cons.mpr ⟨h.past, h.newest⟩, ?_, List.nodup_cons.mpr ⟨hnew, h.distinct⟩,
    .cons ⟨rfl, rfl⟩ h.holds⟩
  refine List.forall_mem_cons.mpr ⟨Nat.lt_succ_self time, fun slot hmem => ?_⟩
  exact Nat.lt_succ_of_lt (h.past slot hmem)

/-- The slots of the other keys hold the rest of the pairs. -/
theorem Ordered.filter (h : Ordered time slots pairs) (key : String) :
    Ordered time (slots.filter fun slot => slot.key != key)
      (pairs.filter fun pair => pair.1 != key) := by
  refine ⟨h.newest.filter _, ?_, ?_, ?_⟩
  · exact fun slot hmem => h.past slot (List.mem_of_mem_filter hmem)
  · exact h.distinct.sublist (List.filter_sublist.map Slot.key)
  · refine List.rel_filter ?_ h.holds
    intro slot pair hpair
    show (slot.key != key) = true ↔ (pair.1 != key) = true
    rw [hpair.1]

/-- The newest slots hold the first pairs. -/
theorem Ordered.take (h : Ordered time slots pairs) (count : Nat) :
    Ordered time (slots.take count) (pairs.take count) := by
  refine ⟨h.newest.sublist (List.take_sublist _ _), ?_, ?_, List.forall₂_take _ h.holds⟩
  · exact fun slot hmem => h.past slot (List.mem_of_mem_take hmem)
  · exact h.distinct.sublist ((List.take_sublist _ _).map Slot.key)

theorem Ordered.isSome (h : Ordered time slots pairs) :
    ∀ slot ∈ slots, slot.value.isSome = true := by
  have hholds := h.holds
  clear h
  induction hholds with
  | nil => exact nofun
  | cons hpair _ ih => exact List.forall_mem_cons.mpr ⟨by simp [hpair.2], ih⟩

theorem Ordered.map_key_eq (h : Ordered time slots pairs) :
    slots.map Slot.key = pairs.map Prod.fst := by
  have hholds := h.holds
  clear h
  induction hholds with
  | nil => rfl
  | cons hpair _ ih => rw [List.map_cons, List.map_cons, hpair.1, ih]

/-- No two slots have the same stamp. -/
theorem Ordered.eq_of_lastAccess_eq (h : Ordered time slots pairs) {slot other : Slot V}
    (hslot : slot ∈ slots) (hother : other ∈ slots) (heq : slot.lastAccess = other.lastAccess) :
    slot = other := by
  have hstamps : (slots.map Slot.lastAccess).Nodup :=
    List.pairwise_map.mpr (h.newest.imp fun hlt => Nat.ne_of_gt hlt)
  exact List.inj_on_of_nodup_map hstamps hslot hother heq

/-! ## Looking up -/

/-- The slot of a key is the only one of that key. -/
theorem find?_key_eq_some_iff (h : (slots.map Slot.key).Nodup) {key : String} {slot : Slot V} :
    slots.find? (fun other => other.key == key) = some slot ↔ slot ∈ slots ∧ slot.key = key := by
  induction slots with
  | nil => simp
  | cons first slots ih =>
    rw [List.map_cons, List.nodup_cons] at h
    rw [List.find?_cons]
    by_cases hfirst : first.key = key
    · have hnot : ∀ other ∈ slots, other.key ≠ key := fun other hmem hkey =>
        h.1 (List.mem_map.mpr ⟨other, hmem, hkey.trans hfirst.symm⟩)
      simp only [beq_iff_eq.mpr hfirst, Option.some.injEq, List.mem_cons]
      constructor
      · rintro rfl
        exact ⟨.inl rfl, hfirst⟩
      · rintro ⟨rfl | hmem, hkey⟩
        · rfl
        · exact absurd hkey (hnot slot hmem)
    · simp only [beq_false_of_ne hfirst, ih h.2, List.mem_cons]
      constructor
      · exact fun hslot => ⟨.inr hslot.1, hslot.2⟩
      · rintro ⟨rfl | hmem, hkey⟩
        · exact absurd hkey hfirst
        · exact ⟨hmem, hkey⟩

/-- The order of the slots does not matter for looking one up. -/
theorem slot?_eq_of_perm {cache : Cache V} (hperm : slots.Perm cache.slots)
    (h : (slots.map Slot.key).Nodup) (key : String) :
    cache.slot? key = slots.find? fun slot => slot.key == key := by
  have h' : (cache.slots.map Slot.key).Nodup := (hperm.map Slot.key).nodup_iff.mp h
  refine Option.ext fun slot => ?_
  rw [slot?, find?_key_eq_some_iff h, find?_key_eq_some_iff h', hperm.mem_iff]

/-- The slot of a key has the value of its pair. -/
theorem Ordered.find? (h : Ordered time slots pairs) (key : String) :
    (slots.find? fun slot => slot.key == key).map Slot.value = (pairs.lookup key).map some := by
  have hholds := h.holds
  clear h
  induction hholds with
  | nil => rfl
  | @cons slot pair slots pairs hpair _ ih =>
    obtain ⟨name, value⟩ := pair
    obtain ⟨hname, hvalue⟩ := hpair
    dsimp only at hname
    rw [List.find?_cons, List.lookup_cons]
    by_cases hkey : name = key
    · simp [hname, hkey, hvalue]
    · have hpair : (key == name) = false := beq_false_of_ne fun heq => hkey heq.symm
      have hslot : (slot.key == key) = false := beq_false_of_ne (hname ▸ hkey)
      rw [hpair, hslot]
      exact ih

end

section

variable {cache : Cache V} {list : Recency V} (h : cache.Refines list)

include h

theorem Refines.slot?_map_value (key : String) :
    (cache.slot? key).map Slot.value = (list.find? key).map some := by
  obtain ⟨ordered, hperm, hordered⟩ := h.slots
  rw [slot?_eq_of_perm hperm hordered.distinct]
  exact hordered.find? key

theorem Refines.slot?_eq_none {key : String} (hkey : list.find? key = none) :
    cache.slot? key = none := by
  have hslot := h.slot?_map_value key
  rw [hkey] at hslot
  exact Option.map_eq_none_iff.mp hslot

theorem Refines.exists_slot {key : String} {value : V} (hkey : list.find? key = some value) :
    ∃ slot, cache.slot? key = some slot ∧ slot.value = some value := by
  have hslot := h.slot?_map_value key
  rw [hkey] at hslot
  exact Option.map_eq_some_iff.mp hslot

/-- The value of a key is the one that the cache shows. -/
theorem Refines.peek?_eq (key : String) : cache.peek? key = list.find? key := by
  rw [peek?]
  cases hkey : list.find? key with
  | none => rw [h.slot?_eq_none hkey]
  | some value =>
    obtain ⟨slot, hslot, hvalue⟩ := h.exists_slot hkey
    rw [hslot]
    exact hvalue

theorem Refines.contains_eq (key : String) : cache.contains key = (list.find? key).isSome := by
  rw [Cache.contains, h.peek?_eq]

/-- The keys are distinct. -/
theorem Refines.nodup : (list.pairs.map Prod.fst).Nodup := by
  obtain ⟨ordered, _, hordered⟩ := h.slots
  exact hordered.map_key_eq ▸ hordered.distinct

theorem Refines.size_eq : cache.size = list.pairs.length := by
  obtain ⟨ordered, hperm, hordered⟩ := h.slots
  rw [size, ← hperm.length_eq, hordered.holds.length_eq]

/-- A cache looks like its list. -/
theorem Refines.view_eq : cache.view = list.view := by
  have hsize : cache.slots.length = list.pairs.length := h.size_eq
  have hempty : cache.isEmpty = list.pairs.isEmpty := by
    rw [Bool.eq_iff_iff, isEmpty, List.isEmpty_iff_length_eq_zero, List.isEmpty_iff_length_eq_zero,
      hsize]
  rw [view, Recency.view, h.size_eq, hempty]
  exact congrArg _ (funext h.contains_eq)

end

/-! ## Using a key -/

/-- The slot of a used key is stamped, and all others stay. -/
theorem touch_perm {slots : List (Slot V)} (h : (slots.map Slot.key).Nodup) {slot : Slot V}
    (hmem : slot ∈ slots) (time : Nat) :
    ({ slot with lastAccess := time } ::
        slots.filter fun other => other.key != slot.key).Perm (touch slot.key time slots) := by
  induction slots with
  | nil => cases hmem
  | cons first slots ih =>
    rw [List.map_cons, List.nodup_cons] at h
    by_cases hfirst : first.key = slot.key
    · have hothers : ∀ other ∈ slots, other.key ≠ slot.key := fun other hother hkey =>
        h.1 (List.mem_map.mpr ⟨other, hother, hkey.trans hfirst.symm⟩)
      have hslot : slot = first :=
        (List.mem_cons.mp hmem).resolve_right fun hrest => hothers slot hrest rfl
      have hrest : touch slot.key time slots = slots := by
        refine (List.map_congr_left fun other hother => ?_).trans (List.map_id slots)
        simp [hothers other hother]
      have hfilter : slots.filter (fun other => other.key != slot.key) = slots :=
        List.filter_eq_self.mpr fun other hother => by simp [hothers other hother]
      have htouch : touch slot.key time (first :: slots) =
          { slot with lastAccess := time } :: slots := by
        rw [touch, List.map_cons, if_pos (beq_iff_eq.mpr hfirst), ← hslot]
        exact congrArg _ hrest
      rw [htouch, List.filter_cons_of_neg (by simp [hfirst]), hfilter]
    · have hrest : slot ∈ slots :=
        (List.mem_cons.mp hmem).resolve_left fun heq => hfirst (heq ▸ rfl)
      have htouch : touch slot.key time (first :: slots) = first :: touch slot.key time slots := by
        rw [touch, List.map_cons, if_neg (by simpa using hfirst)]
        rfl
      rw [htouch, List.filter_cons_of_pos (by simpa using hfirst)]
      exact (List.Perm.swap first _ _).trans ((ih h.2 hrest).cons first)

/-- A key that is used moves to the front of the list. -/
theorem Refines.touch {cache : Cache V} {list : Recency V} (h : cache.Refines list) {key : String}
    {value : V} (hkey : list.find? key = some value) :
    Refines { cache with slots := touch key cache.clock cache.slots, clock := cache.clock + 1 }
      (list.use key value) := by
  obtain ⟨slot, hslot, hvalue⟩ := h.exists_slot hkey
  obtain ⟨ordered, hperm, hordered⟩ := h.slots
  rw [slot?_eq_of_perm hperm hordered.distinct, find?_key_eq_some_iff hordered.distinct] at hslot
  obtain ⟨hmem, rfl⟩ := hslot
  refine ⟨h.maximumSize, h.reductionSize, ⟨slot.key, slot.installed, some value, cache.clock⟩ ::
    ordered.filter (fun other => other.key != slot.key), ?_, ?_⟩
  · have htouch := touch_perm hordered.distinct hmem cache.clock
    rw [← hvalue]
    exact htouch.trans (hperm.map _)
  · refine (hordered.filter slot.key).cons slot.installed value ?_
    simp

/-! ## Eviction -/

/-- The slots by age are the ordered ones from the last to the first. -/
theorem byAge_eq {time : Nat} {slots ordered : List (Slot V)} {pairs : List (String × V)}
    (hperm : ordered.Perm slots) (h : Ordered time ordered pairs) :
    byAge slots = ordered.reverse.map Slot.key := by
  let older : Slot V → Slot V → Bool :=
    fun slot other => decide (slot.lastAccess ≤ other.lastAccess)
  have hsorted : (slots.mergeSort older).Pairwise fun slot other => older slot other = true :=
    List.pairwise_mergeSort (by simp [older]; omega) (by simp [older]; omega) slots
  have hreverse : ordered.reverse.Pairwise fun slot other => older slot other = true := by
    rw [List.pairwise_reverse]
    exact h.newest.imp fun hlt => decide_eq_true (Nat.le_of_lt hlt)
  have hsame : (slots.mergeSort older).Perm ordered.reverse :=
    (List.mergeSort_perm slots older).trans (hperm.symm.trans ordered.reverse_perm.symm)
  have heq : slots.mergeSort older = ordered.reverse := by
    refine hsame.eq_of_pairwise ?_ hsorted hreverse
    intro slot other hslot hother hle hge
    rw [hsame.mem_iff, List.mem_reverse] at hslot
    rw [List.mem_reverse] at hother
    exact h.eq_of_lastAccess_eq hslot hother
      (Nat.le_antisymm (of_decide_eq_true hle) (of_decide_eq_true hge))
  exact congrArg (List.map Slot.key) heq

/-- Dropping built slots from the last on leaves the first ones. -/
theorem take_perm_dropUntil (target : Nat) {slots ordered : List (Slot V)}
    (hperm : ordered.Perm slots) (hdistinct : (ordered.map Slot.key).Nodup)
    (hbuilt : ∀ slot ∈ ordered, slot.value.isSome = true) :
    (ordered.take target).Perm (dropUntil target (ordered.reverse.map Slot.key) slots) := by
  induction ordered using List.reverseRecOn generalizing slots with
  | nil =>
    rw [List.take_nil]
    exact hperm
  | append_singleton front last ih =>
    have hlength : slots.length = front.length + 1 := by
      rw [← hperm.length_eq, List.length_append, List.length_singleton]
    rw [List.reverse_append, List.reverse_singleton, List.singleton_append, List.map_cons,
      dropUntil]
    by_cases hfits : slots.length ≤ target
    · rw [if_pos hfits, List.take_of_length_le (by rw [hperm.length_eq]; exact hfits)]
      exact hperm
    · have hshort : target ≤ front.length := by omega
      rw [if_neg hfits, List.take_append_of_le_length hshort]
      rw [List.map_append, List.map_singleton, List.nodup_append] at hdistinct
      obtain ⟨hfront, _, hlast⟩ := hdistinct
      rw [List.forall_mem_append] at hbuilt
      -- Only the last slot has its key, and it has a value.
      have hdrop : (front ++ [last]).filter
          (fun slot => !(slot.key == last.key && slot.value.isSome)) = front := by
        have hkept : front.filter (fun slot => !(slot.key == last.key && slot.value.isSome)) =
            front := by
          refine List.filter_eq_self.mpr fun slot hmem => ?_
          have hne : slot.key ≠ last.key :=
            hlast _ (List.mem_map_of_mem hmem) _ (List.mem_singleton_self _)
          simp [hne]
        have hgone := hbuilt.2 last (List.mem_singleton_self _)
        rw [List.filter_append, hkept, List.filter_singleton]
        simp [hgone]
      refine ih ?_ hfront hbuilt.1
      rw [← hdrop]
      exact hperm.filter _

/-- A cache that is too full drops the end of its list. -/
theorem Refines.evict {cache : Cache V} {list : Recency V} (h : cache.Refines list) :
    cache.evict.Refines list.trim := by
  rw [Cache.evict, Recency.trim, h.size_eq, h.maximumSize, h.reductionSize]
  split
  · exact h
  · obtain ⟨ordered, hperm, hordered⟩ := h.slots
    refine ⟨rfl, rfl, ordered.take (list.maximumSize - list.reductionSize), ?_, hordered.take _⟩
    dsimp only
    rw [byAge_eq hperm hordered]
    exact take_perm_dropUntil _ hperm hordered.distinct hordered.isSome

/-! ## New keys -/

section

variable {cache : Cache V} {list : Recency V} (h : cache.Refines list) {key : String}
  (hkey : list.find? key = none)

include h hkey

theorem Refines.key_ne : ∀ slot ∈ cache.slots, slot.key ≠ key := fun slot hmem hsame =>
  List.find?_eq_none.mp (h.slot?_eq_none hkey) slot hmem (beq_iff_eq.mpr hsame)

/-- The cache opens a slot for a new key. -/
theorem Refines.request_new : cache.request key =
    (.vacant cache.clock, { cache with
      slots := cache.slots ++ [⟨key, cache.clock, none, cache.clock⟩]
      clock := cache.clock + 1 }) := by
  rw [request, h.slot?_eq_none hkey]

/-- A new key gets its value, and the cache drops what is too much. -/
theorem Refines.fill_new (value : V) :
    ((cache.request key).2.fill key cache.clock value).Refines (list.put key value) := by
  have habsent := h.key_ne hkey
  obtain ⟨ordered, hperm, hordered⟩ := h.slots
  have hfilled : cache.slots.map (fun slot =>
      if slot.key == key && slot.installed == cache.clock then { slot with value := some value }
      else slot) = cache.slots := by
    refine (List.map_congr_left fun slot hmem => ?_).trans (List.map_id cache.slots)
    simp [habsent slot hmem]
  have hnew : key ∉ ordered.map Slot.key := by
    rw [(hperm.map Slot.key).mem_iff, List.mem_map]
    rintro ⟨slot, hmem, hsame⟩
    exact habsent slot hmem hsame
  rw [h.request_new hkey]
  refine Refines.evict ⟨h.maximumSize, h.reductionSize,
    ⟨key, cache.clock, some value, cache.clock⟩ :: ordered, ?_,
    hordered.cons cache.clock value hnew⟩
  dsimp only
  rw [List.map_append, hfilled, List.map_singleton, if_pos (by simp)]
  exact (hperm.cons _).trans (List.perm_append_singleton _ _).symm

/-- A new key whose build fails leaves no trace. -/
theorem Refines.abandon_new :
    ((cache.request key).2.abandon key cache.clock).Refines list := by
  have habsent := h.key_ne hkey
  obtain ⟨ordered, hperm, hordered⟩ := h.slots
  have hkept : cache.slots.filter (fun slot =>
      !(slot.key == key && slot.installed == cache.clock)) = cache.slots :=
    List.filter_eq_self.mpr fun slot hmem => by simp [habsent slot hmem]
  rw [h.request_new hkey]
  refine ⟨h.maximumSize, h.reductionSize, ordered, ?_, hordered.later (Nat.le_succ _)⟩
  dsimp only [abandon]
  rw [List.filter_append, hkept, List.filter_cons_of_neg (by simp), List.filter_nil,
    List.append_nil]
  exact hperm

end

/-! ## Runs -/

/-- A value is found, or built and added. -/
theorem Refines.getOrAdd {cache : Cache V} {list : Recency V} (h : cache.Refines list)
    (key : String) (built : Except E V) :
    (cache.getOrAdd key built).1 = (list.getOrAdd key built).1 ∧
      (cache.getOrAdd key built).2.Refines (list.getOrAdd key built).2 := by
  unfold Cache.getOrAdd Recency.getOrAdd
  cases hkey : list.find? key with
  | some value =>
    obtain ⟨slot, hslot, hvalue⟩ := h.exists_slot hkey
    rw [request, hslot]
    dsimp only
    rw [hvalue]
    exact ⟨rfl, h.touch hkey⟩
  | none =>
    have hrequest := h.request_new hkey
    cases built with
    | ok value =>
      have hfill := h.fill_new hkey value
      rw [hrequest] at hfill ⊢
      exact ⟨rfl, hfill⟩
    | error e =>
      have habandon := h.abandon_new hkey
      rw [hrequest] at habandon ⊢
      exact ⟨rfl, habandon⟩

/-- A key that is there is used. -/
theorem Refines.get {cache : Cache V} {list : Recency V} (h : cache.Refines list) (key : String) :
    (cache.get key).1 = (list.get key).1 ∧ (cache.get key).2.Refines (list.get key).2 := by
  rw [Cache.get, Recency.get]
  cases hkey : list.find? key with
  | some value =>
    obtain ⟨slot, hslot, hvalue⟩ := h.exists_slot hkey
    rw [hslot]
    exact ⟨hvalue, h.touch hkey⟩
  | none =>
    rw [h.slot?_eq_none hkey]
    exact ⟨rfl, h⟩

theorem Refines.clear {cache : Cache V} {list : Recency V} (h : cache.Refines list) :
    cache.clear.Refines list.clear :=
  ⟨h.maximumSize, h.reductionSize, [], .refl _, ordered_nil _⟩

/-- Every access does to the cache what it does to the list. -/
theorem Refines.access {cache : Cache V} {list : Recency V} (h : cache.Refines list)
    (access : Access V E) :
    (cache.access access).1 = (list.access access).1 ∧
      (cache.access access).2.Refines (list.access access).2 := by
  cases access with
  | add key built =>
    obtain ⟨hadded, hafter⟩ := h.getOrAdd key built
    exact ⟨congrArg Outcome.added hadded, hafter⟩
  | get key =>
    obtain ⟨hgot, hafter⟩ := h.get key
    exact ⟨congrArg Outcome.got hgot, hafter⟩
  | contains key => exact ⟨congrArg Outcome.contained (h.contains_eq key), h⟩
  | clear => exact ⟨rfl, h.clear⟩

/-- A run keeps the cache and the list in step. -/
theorem Refines.trace_eq {cache : Cache V} {list : Recency V} (h : cache.Refines list)
    (accesses : List (Access V E)) :
    trace Cache.access view cache accesses = trace Recency.access Recency.view list accesses := by
  induction accesses generalizing cache list with
  | nil => rfl
  | cons first rest ih =>
    obtain ⟨houtcome, hafter⟩ := h.access first
    rw [trace, trace]
    dsimp only
    rw [houtcome, hafter.view_eq, ih hafter]

/-- A cache answers every run of accesses like the recency list of its sizes,
and looks like it after every access. -/
theorem trace_eq_recency (maximumSize reductionSize : Nat) (accesses : List (Access V E)) :
    trace Cache.access view (new maximumSize reductionSize) accesses =
      trace Recency.access Recency.view ⟨maximumSize, reductionSize, []⟩ accesses :=
  (refines_new maximumSize reductionSize).trace_eq accesses

/-! ## Scripts -/

/-- The step that an access is in a script: a build without inner steps. -/
def stepOf : Access String Unit → Step
  | .add key built => .add key built.toOption []
  | .get key => .get key
  | .contains key => .contains key
  | .clear => .clear

/-- What a script says of an outcome. -/
def replyOf : Outcome String Unit → Reply
  | .added ⟨.ok value, ran⟩ => .added value ran
  | .added ⟨.error _, _⟩ => .failed
  | .got value => .got value
  | .contained answer => .contained answer
  | .cleared => .cleared

/-- A script step without inner steps is an access. -/
theorem run_stepOf (cache : Cache String) (access : Access String Unit) :
    Step.run cache (stepOf access) =
      .seen (replyOf (cache.access access).1) [] (cache.access access).2 := by
  cases access with
  | add key built =>
    rw [stepOf, Step.run, Cache.access, getOrAdd]
    generalize cache.request key = asked
    obtain ⟨found, asked⟩ := asked
    cases found with
    | value stored => rfl
    | vacant installed => cases built <;> rfl
  | get _ | contains _ | clear => rfl

end Cache

end FormulaEngine
