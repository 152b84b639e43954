import FormulaEngine.Cache.Script
import FormulaEngine.Proofs.Cache.Contents

/-!
# Builds inside builds

The build of a value may use the cache itself, and start further builds that
end before it does.  So there is a stack of running builds, and each of them
has a slot without a value in the cache, unless the slot was cleared away.

* `Event` is one thing that happens to such a cache.  A build begins with a
  request that finds no value, and the build that began last ends first.
* `Busy` is the cache with the stack.  `Busy.after` is one event, and
  `afterAll_eventsOfAll` says that a script is a list of events.
* `Busy.Admits` excludes one thing: a request for a value while its slot waits
  for it, because such a request would wait for itself.
* `Busy.Sound` is the invariant.  The slots without a value are those of
  running builds, and a build that lost its slot has lost it to a clearing, by
  which all earlier ones lost theirs too.
* `Busy.Happens` lists what an event can do.  `Sound.of_happens` says that it
  keeps the invariant, and `Sound.awaits_of_happens` that nothing but a
  clearing parts a build from its slot.

`nested_builds_are_sound` states it for runs, and `size_runAll_le` for whole
scripts.  A build that lost its slot has no effect on the cache when it ends:
all slots are of later builds then, which have ended, so they have values, and
they are few enough.
-/

namespace FormulaEngine.Cache

/-! ## Events -/

/-- A build, by the key and the tick of the slot that was installed for it. -/
structure Build where
  key : String
  installed : Nat
  deriving DecidableEq

/-- What happens to a cache.  A build ends with a value, or fails. -/
inductive Event (V : Type) where
  | request (key : String)
  | finish (value : Option V)
  | get (key : String)
  | contains (key : String)
  | clear
  deriving DecidableEq

/-- A cache and the builds that run, the one that began last first. -/
structure Busy (V : Type) where
  cache : Cache V
  running : List Build

/-- The build and the value of a slot. -/
def place {V : Type} (slot : Slot V) : Build × Option V :=
  (⟨slot.key, slot.installed⟩, slot.value)

/-- The slots without their stamps. -/
def places {V : Type} (cache : Cache V) : List (Build × Option V) := cache.slots.map place

/-- The slot of a build is there, and has no value. -/
def Awaits {V : Type} (cache : Cache V) (build : Build) : Prop := (build, none) ∈ cache.places

instance {V : Type} [DecidableEq V] (cache : Cache V) (build : Build) :
    Decidable (cache.Awaits build) :=
  inferInstanceAs (Decidable (_ ∈ _))

namespace Busy

variable {V : Type}

/-- A new cache, and no builds. -/
def new (maximumSize reductionSize : Nat) : Busy V := ⟨.new maximumSize reductionSize, []⟩

/-- What is left after an event. -/
def after (busy : Busy V) : Event V → Busy V
  | .request key =>
    match busy.cache.request key with
    | (.value _, asked) => { busy with cache := asked }
    | (.vacant installed, asked) => ⟨asked, ⟨key, installed⟩ :: busy.running⟩
  | .finish value =>
    match busy.running with
    | [] => busy
    | build :: others =>
      match value with
      | some value => ⟨busy.cache.fill build.key build.installed value, others⟩
      | none => ⟨busy.cache.abandon build.key build.installed, others⟩
  | .get key => { busy with cache := (busy.cache.get key).2 }
  | .contains _ => busy
  | .clear => { busy with cache := busy.cache.clear }

/-- What is left after a list of events. -/
def afterAll (busy : Busy V) (events : List (Event V)) : Busy V := events.foldl after busy

/-- The event can happen: no value is asked for by its own build, and only a
build that runs can end. -/
def Admits (busy : Busy V) : Event V → Prop
  | .request key => ∀ build ∈ busy.running, build.key = key → ¬busy.cache.Awaits build
  | .finish _ => busy.running ≠ []
  | .get _ | .contains _ | .clear => True

/-- The events can happen one after the other. -/
def AdmitsAll (busy : Busy V) : List (Event V) → Prop
  | [] => True
  | event :: events => busy.Admits event ∧ (busy.after event).AdmitsAll events

instance decidableAdmits [DecidableEq V] (busy : Busy V) :
    (event : Event V) → Decidable (busy.Admits event)
  | .request _ => inferInstanceAs (Decidable (∀ build ∈ busy.running, _))
  | .finish _ => inferInstanceAs (Decidable (busy.running ≠ []))
  | .get _ | .contains _ | .clear => inferInstanceAs (Decidable True)

instance decidableAdmitsAll [DecidableEq V] :
    (busy : Busy V) → (events : List (Event V)) → Decidable (busy.AdmitsAll events)
  | _, [] => inferInstanceAs (Decidable True)
  | busy, event :: events =>
    let _ := decidableAdmitsAll (busy.after event) events
    inferInstanceAs (Decidable (busy.Admits event ∧ (busy.after event).AdmitsAll events))

theorem afterAll_cons (busy : Busy V) (event : Event V) (events : List (Event V)) :
    busy.afterAll (event :: events) = (busy.after event).afterAll events := rfl

theorem afterAll_append (busy : Busy V) (events later : List (Event V)) :
    busy.afterAll (events ++ later) = (busy.afterAll events).afterAll later :=
  List.foldl_append

theorem admitsAll_append {busy : Busy V} {events later : List (Event V)} :
    busy.AdmitsAll (events ++ later) ↔
      busy.AdmitsAll events ∧ (busy.afterAll events).AdmitsAll later := by
  induction events generalizing busy with
  | nil => exact ⟨fun h => ⟨trivial, h⟩, fun h => h.2⟩
  | cons event events ih =>
    rw [List.cons_append, AdmitsAll, AdmitsAll, ih, and_assoc]
    rfl

end Busy

/-! ## Scripts -/

mutual

/-- The events of a step.  The steps inside a build stand between its begin
and its end. -/
def eventsOf (cache : Cache String) : Step → List (Event String)
  | .add key value inner =>
    match cache.request key with
    | (.value _, _) => [.request key]
    | (.vacant _, asked) => .request key :: (eventsOfAll asked inner ++ [.finish value])
  | .get key => [.get key]
  | .contains key => [.contains key]
  | .clear => [.clear]

/-- The events of a script. -/
def eventsOfAll (cache : Cache String) : List Step → List (Event String)
  | [] => []
  | step :: steps => eventsOf cache step ++ eventsOfAll (step.run cache).after steps

end

mutual

/-- A step of a script does what its events do, whatever builds run. -/
theorem afterAll_eventsOf (cache : Cache String) (running : List Build) :
    ∀ step : Step, Busy.afterAll ⟨cache, running⟩ (eventsOf cache step) =
      ⟨(step.run cache).after, running⟩
  | .add key value inner => by
    rw [eventsOf, Step.run]
    cases hasked : cache.request key with
    | mk found asked =>
      cases found with
      | value stored =>
        dsimp only
        rw [Busy.afterAll_cons, Busy.after, hasked]
        rfl
      | vacant installed =>
        dsimp only
        rw [Busy.afterAll_cons, Busy.after, hasked]
        dsimp only
        rw [Busy.afterAll_append, afterAll_eventsOfAll asked _ inner]
        cases value <;> rfl
  | .get _ => rfl
  | .contains _ => rfl
  | .clear => rfl

/-- A script does what its events do. -/
theorem afterAll_eventsOfAll (cache : Cache String) (running : List Build) :
    ∀ steps : List Step, Busy.afterAll ⟨cache, running⟩ (eventsOfAll cache steps) =
      ⟨(runAll cache steps).2, running⟩
  | [] => rfl
  | step :: steps => by
    rw [eventsOfAll, Busy.afterAll_append, afterAll_eventsOf cache running step,
      afterAll_eventsOfAll _ running steps]
    rfl

end

/-! ## What the cache does to its slots -/

variable {V : Type}

theorem size_eq_length_places (cache : Cache V) : cache.size = cache.places.length := by
  rw [places, List.length_map, size]

theorem length_builtKeys (cache : Cache V) :
    cache.builtKeys.length = cache.places.countP fun place => place.2.isSome := by
  rw [builtKeys, List.length_map, places, List.countP_map, ← List.countP_eq_length_filter]
  rfl

/-- An access changes nothing but stamps. -/
theorem map_place_touch (key : String) (time : Nat) (slots : List (Slot V)) :
    (touch key time slots).map place = slots.map place := by
  rw [touch, List.map_map]
  refine List.map_congr_left fun slot _ => ?_
  rw [Function.comp_apply]
  split <;> rfl

theorem places_get (cache : Cache V) (key : String) :
    (cache.get key).2.places = cache.places := by
  rw [get]
  split
  · exact map_place_touch _ _ _
  · rfl

/-- A request installs a slot if there is none. -/
theorem request_of_slot?_eq_none {cache : Cache V} {key : String} (h : cache.slot? key = none) :
    cache.request key = (.vacant cache.clock, { cache with
      slots := cache.slots ++ [⟨key, cache.clock, none, cache.clock⟩]
      clock := cache.clock + 1 }) := by
  rw [request, h]

/-- A request finds the value of a slot, and stamps the slot. -/
theorem request_of_value {cache : Cache V} {key : String} {slot : Slot V} {value : V}
    (h : cache.slot? key = some slot) (hvalue : slot.value = some value) :
    cache.request key = (.value value, { cache with
      slots := touch key cache.clock cache.slots, clock := cache.clock + 1 }) := by
  rw [request, h]
  dsimp only
  rw [hvalue]

/-! ### Evictions -/

/-- A slot without a value is not dropped. -/
theorem mem_dropUntil (target : Nat) (keys : List String) {slots : List (Slot V)} {slot : Slot V}
    (hmem : slot ∈ slots) (hvalue : slot.value = none) : slot ∈ dropUntil target keys slots := by
  induction keys generalizing slots with
  | nil => exact hmem
  | cons key keys ih =>
    rw [dropUntil]
    split
    · exact hmem
    · exact ih (List.mem_filter.mpr ⟨hmem, by simp [hvalue]⟩)

/-- Slots are dropped until they are few enough, or none with a value is
left. -/
theorem dropUntil_done {target : Nat} {keys : List String} {slots : List (Slot V)}
    (h : ∀ slot ∈ slots, slot.value.isSome = true → slot.key ∈ keys) :
    (dropUntil target keys slots).length ≤ target ∨
      ∀ slot ∈ dropUntil target keys slots, slot.value.isSome = false := by
  induction keys generalizing slots with
  | nil =>
    refine .inr fun slot hmem => Bool.eq_false_iff.mpr fun hsome => ?_
    cases h slot hmem hsome
  | cons key keys ih =>
    rw [dropUntil]
    split
    · rename_i hfew
      exact .inl hfew
    · refine ih fun slot hmem hsome => ?_
      obtain ⟨hmem, hkept⟩ := List.mem_filter.mp hmem
      have hne : slot.key ≠ key := by simpa [hsome] using hkept
      exact (List.mem_cons.mp (h slot hmem hsome)).resolve_left hne

theorem mem_byAge {slots : List (Slot V)} {slot : Slot V} (h : slot ∈ slots) :
    slot.key ∈ byAge slots :=
  List.mem_map_of_mem (List.mem_mergeSort.mpr h)

theorem evict_eq_self {cache : Cache V} (h : cache.size ≤ cache.maximumSize) :
    cache.evict = cache := if_pos h

/-- An eviction keeps the sizes and the clock. -/
theorem evict_fields (cache : Cache V) :
    cache.evict.maximumSize = cache.maximumSize ∧ cache.evict.clock = cache.clock := by
  rw [evict]
  split <;> exact ⟨rfl, rfl⟩

theorem places_evict_sublist (cache : Cache V) : cache.evict.places.Sublist cache.places := by
  rw [evict]
  split
  · exact .refl _
  · exact (dropUntil_sublist _ _ _).map place

theorem awaits_evict_iff {cache : Cache V} {build : Build} :
    cache.evict.Awaits build ↔ cache.Awaits build := by
  refine ⟨fun h => (places_evict_sublist cache).mem h, fun h => ?_⟩
  obtain ⟨slot, hmem, hplace⟩ := List.mem_map.mp h
  refine List.mem_map.mpr ⟨slot, ?_, hplace⟩
  rw [evict]
  split
  · exact hmem
  · exact mem_dropUntil _ _ hmem (Prod.mk.inj hplace).2

/-- After an eviction the values are few enough. -/
theorem countP_evict_le (cache : Cache V) :
    (cache.evict.places.countP fun place => place.2.isSome) ≤ cache.maximumSize := by
  rw [evict]
  split
  · rename_i hfew
    rw [size_eq_length_places] at hfew
    exact Nat.le_trans List.countP_le_length hfew
  · rw [places, List.countP_map]
    have hdone := @dropUntil_done V (cache.maximumSize - cache.reductionSize) _ cache.slots
      fun slot hmem _ => mem_byAge hmem
    rcases hdone with hfew | hnone
    · exact Nat.le_trans List.countP_le_length (Nat.le_trans hfew (Nat.sub_le _ _))
    · refine Nat.le_trans (Nat.le_of_eq (List.countP_eq_zero.mpr fun slot hmem => ?_))
        (Nat.zero_le _)
      exact Bool.eq_false_iff.mp (hnone slot hmem)

/-! ### Ends of builds -/

/-- The cache with a value in the slot of a build. -/
def filled (cache : Cache V) (build : Build) (value : V) : Cache V :=
  { cache with
    slots := cache.slots.map fun slot =>
      if slot.key == build.key && slot.installed == build.installed then
        { slot with value := some value }
      else slot }

theorem fill_eq (cache : Cache V) (build : Build) (value : V) :
    cache.fill build.key build.installed value = (cache.filled build value).evict := rfl

theorem belongs_iff {slot : Slot V} {build : Build} :
    (slot.key == build.key && slot.installed == build.installed) = true ↔
      (place slot).1 = build := by
  rw [Bool.and_eq_true, beq_iff_eq, beq_iff_eq, place, Build.mk.injEq]

theorem places_filled (cache : Cache V) (build : Build) (value : V) :
    (cache.filled build value).places =
      cache.places.map fun place => if place.1 = build then (build, some value) else place := by
  rw [places, filled, places, List.map_map, List.map_map]
  refine List.map_congr_left fun slot _ => ?_
  rw [Function.comp_apply, Function.comp_apply]
  by_cases hslot : (place slot).1 = build
  · rw [if_pos (belongs_iff.mpr hslot), if_pos hslot, ← hslot]
    rfl
  · rw [if_neg (fun h => hslot (belongs_iff.mp h)), if_neg hslot]

theorem places_abandon (cache : Cache V) (build : Build) :
    (cache.abandon build.key build.installed).places =
      cache.places.filter fun place => place.1 ≠ build := by
  rw [places, abandon, places, List.filter_map]
  refine congrArg (List.map place) (List.filter_congr fun slot _ => ?_)
  rw [Function.comp_apply, Bool.eq_iff_iff, decide_eq_true_iff, Bool.not_eq_true',
    ← Bool.not_eq_true, belongs_iff]

theorem filled_eq_self {cache : Cache V} {build : Build}
    (h : ∀ place ∈ cache.places, place.1 ≠ build) (value : V) :
    cache.filled build value = cache := by
  have hslots : (cache.slots.map fun slot =>
      if slot.key == build.key && slot.installed == build.installed then
        { slot with value := some value }
      else slot) = cache.slots := by
    refine (List.map_congr_left fun slot hmem => ?_).trans (List.map_id _)
    exact if_neg fun hbelongs => h _ (List.mem_map_of_mem hmem) (belongs_iff.mp hbelongs)
  rw [filled, hslots]

theorem abandon_eq_self {cache : Cache V} {build : Build}
    (h : ∀ place ∈ cache.places, place.1 ≠ build) :
    cache.abandon build.key build.installed = cache := by
  have hslots : (cache.slots.filter fun slot =>
      !(slot.key == build.key && slot.installed == build.installed)) = cache.slots := by
    refine List.filter_eq_self.mpr fun slot hmem => ?_
    rw [Bool.not_eq_true', ← Bool.not_eq_true, belongs_iff]
    exact h _ (List.mem_map_of_mem hmem)
  rw [abandon, hslots]

/-! ## The invariant -/

namespace Busy

/-- The slots without a value wait for running builds, and the others are few
enough. -/
structure Sound (busy : Busy V) : Prop where
  few : (busy.cache.places.countP fun place => place.2.isSome) ≤ busy.cache.maximumSize
  past : ∀ place ∈ busy.cache.places, place.1.installed < busy.cache.clock
  begun : ∀ build ∈ busy.running, build.installed < busy.cache.clock
  order : busy.running.Pairwise fun build earlier => earlier.installed < build.installed
  running : ∀ build, busy.cache.Awaits build → build ∈ busy.running
  unfilled : ∀ build ∈ busy.running, ∀ value, (build, some value) ∉ busy.cache.places
  nested : busy.running.Pairwise fun build earlier =>
    busy.cache.Awaits earlier → busy.cache.Awaits build

theorem sound_new (maximumSize reductionSize : Nat) :
    (new maximumSize reductionSize : Busy V).Sound :=
  ⟨Nat.zero_le _, nofun, nofun, .nil, nofun, nofun, .nil⟩

variable {busy : Busy V}

/-- The same slots in a cache of the same size, later. -/
theorem Sound.congr (h : busy.Sound) {cache : Cache V} (hplaces : cache.places = busy.cache.places)
    (hmaximum : cache.maximumSize = busy.cache.maximumSize)
    (hclock : busy.cache.clock ≤ cache.clock) : Sound ⟨cache, busy.running⟩ := by
  refine ⟨?_, fun place hmem => ?_, fun build hmem => ?_, h.order, ?_, ?_, ?_⟩
  · rw [hplaces, hmaximum]
    exact h.few
  · exact Nat.lt_of_lt_of_le (h.past place (hplaces ▸ hmem)) hclock
  · exact Nat.lt_of_lt_of_le (h.begun build hmem) hclock
  · unfold Awaits
    rw [hplaces]
    exact h.running
  · rw [hplaces]
    exact h.unfilled
  · unfold Awaits
    rw [hplaces]
    exact h.nested

/-! ### Requests -/

/-- A request that is admitted finds a value or begins a build. -/
theorem Sound.request_cases (h : busy.Sound) {key : String} (hadmits : busy.Admits (.request key)) :
    (busy.cache.request key).2.places = busy.cache.places ∧
        busy.after (.request key) = { busy with cache := (busy.cache.request key).2 } ∨
      busy.cache.slot? key = none ∧ busy.after (.request key) =
        ⟨(busy.cache.request key).2, ⟨key, busy.cache.clock⟩ :: busy.running⟩ := by
  cases hslot : busy.cache.slot? key with
  | none =>
    refine .inr ⟨rfl, ?_⟩
    rw [after, request_of_slot?_eq_none hslot]
  | some slot =>
    cases hvalue : slot.value with
    | some value =>
      refine .inl ⟨?_, ?_⟩
      · rw [request_of_value hslot hvalue]
        exact map_place_touch _ _ _
      · rw [after, request_of_value hslot hvalue]
    | none =>
      -- The slot waits for a running build, and that is excluded.
      have hawaits : busy.cache.Awaits ⟨slot.key, slot.installed⟩ := by
        refine List.mem_map.mpr ⟨slot, List.mem_of_find?_eq_some hslot, ?_⟩
        rw [place, hvalue]
      have hkey := List.find?_some hslot
      exact absurd hawaits (hadmits _ (h.running _ hawaits) (beq_iff_eq.mp hkey))

section

variable {key : String} (hnew : busy.cache.slot? key = none)

include hnew

theorem places_request_of_new : (busy.cache.request key).2.places =
    busy.cache.places ++ [(⟨key, busy.cache.clock⟩, none)] := by
  rw [request_of_slot?_eq_none hnew, places, List.map_append]
  rfl

/-- The slot of a new build waits for it, and other slots as before. -/
theorem awaits_request_iff {build : Build} : (busy.cache.request key).2.Awaits build ↔
    busy.cache.Awaits build ∨ build = ⟨key, busy.cache.clock⟩ := by
  rw [Awaits, places_request_of_new hnew, List.mem_append, List.mem_singleton, Awaits]
  simp

omit hnew in
/-- A new build is none of those that run. -/
theorem Sound.ne_of_mem_running (h : busy.Sound) {build : Build} (hmem : build ∈ busy.running) :
    build ≠ ⟨key, busy.cache.clock⟩ := by
  rintro rfl
  exact absurd (h.begun _ hmem) (Nat.lt_irrefl _)

/-- The builds that run are older than a new one. -/
theorem Sound.begin (h : busy.Sound) :
    Sound ⟨(busy.cache.request key).2, ⟨key, busy.cache.clock⟩ :: busy.running⟩ := by
  have hplaces := places_request_of_new hnew
  have hrequest := request_of_slot?_eq_none hnew
  have hclock : (busy.cache.request key).2.clock = busy.cache.clock + 1 := by rw [hrequest]
  refine ⟨?_, ?_, ?_, ?_, ?_, ?_, ?_⟩
  · have hmaximum : (busy.cache.request key).2.maximumSize = busy.cache.maximumSize := by
      rw [hrequest]
    rw [hplaces, hmaximum, List.countP_append]
    exact h.few
  · rw [hplaces, hclock, List.forall_mem_append, List.forall_mem_singleton]
    exact ⟨fun place hmem => Nat.lt_succ_of_lt (h.past place hmem), Nat.lt_succ_self _⟩
  · rw [hclock, List.forall_mem_cons]
    exact ⟨Nat.lt_succ_self _, fun build hmem => Nat.lt_succ_of_lt (h.begun build hmem)⟩
  · exact List.pairwise_cons.mpr ⟨h.begun, h.order⟩
  · intro build hawaits
    rcases (awaits_request_iff hnew).mp hawaits with hold | rfl
    · exact List.mem_cons_of_mem _ (h.running build hold)
    · exact List.mem_cons_self
  · rw [List.forall_mem_cons, hplaces]
    refine ⟨fun value hmem => ?_, fun build hrunning value hmem => ?_⟩
    · rcases List.mem_append.mp hmem with hold | hlast
      · exact absurd (h.past _ hold) (Nat.lt_irrefl _)
      · cases List.mem_singleton.mp hlast
    · rcases List.mem_append.mp hmem with hold | hlast
      · exact h.unfilled build hrunning value hold
      · cases List.mem_singleton.mp hlast
  · refine List.pairwise_cons.mpr ⟨fun _ _ _ => (awaits_request_iff hnew).mpr (.inr rfl), ?_⟩
    refine h.nested.imp_of_mem fun hbuild hearlier hkept hawaits => ?_
    have hold := (awaits_request_iff hnew).mp hawaits
    exact (awaits_request_iff hnew).mpr
      (.inl (hkept (hold.resolve_right (h.ne_of_mem_running hearlier))))

end

/-! ### Ends -/

/-- What the end of a build leaves in the cache. -/
structure Ends (build : Build) (before after : Cache V) : Prop where
  maximumSize : after.maximumSize = before.maximumSize
  clock : after.clock = before.clock
  few : (before.places.countP fun place => place.2.isSome) ≤ before.maximumSize →
    (after.places.countP fun place => place.2.isSome) ≤ before.maximumSize
  places : ∀ place ∈ after.places, place.1 = build ∧ place.2.isSome ∨ place ∈ before.places
  awaits : ∀ other, after.Awaits other ↔ other ≠ build ∧ before.Awaits other

theorem ends_fill (build : Build) (cache : Cache V) (value : V) :
    Ends build cache (cache.fill build.key build.installed value) := by
  have hfilled : ∀ place ∈ (cache.filled build value).places,
      place = (build, some value) ∨ place.1 ≠ build ∧ place ∈ cache.places := by
    rw [places_filled, List.forall_mem_map]
    intro place hmem
    split
    · exact .inl rfl
    · rename_i hne
      exact .inr ⟨hne, hmem⟩
  have hfields := evict_fields (cache.filled build value)
  rw [fill_eq]
  refine ⟨hfields.1, hfields.2, fun _ => countP_evict_le _, fun place hmem => ?_, fun other => ?_⟩
  · rcases hfilled place ((places_evict_sublist _).mem hmem) with rfl | hold
    · exact .inl ⟨rfl, rfl⟩
    · exact .inr hold.2
  · rw [awaits_evict_iff]
    constructor
    · intro hawaits
      rcases hfilled _ hawaits with heq | hold
      · cases heq
      · exact hold
    · rintro ⟨hne, hawaits⟩
      rw [Awaits, places_filled]
      exact List.mem_map.mpr ⟨_, hawaits, if_neg hne⟩

theorem ends_abandon (build : Build) (cache : Cache V) :
    Ends build cache (cache.abandon build.key build.installed) := by
  have hplaces := places_abandon cache build
  refine ⟨rfl, rfl, fun hfew => ?_, fun place hmem => ?_, fun other => ?_⟩
  · rw [hplaces]
    exact Nat.le_trans (List.filter_sublist.countP_le) hfew
  · rw [hplaces] at hmem
    exact .inr (List.mem_filter.mp hmem).1
  · rw [Awaits, hplaces, List.mem_filter, decide_eq_true_iff, and_comm]
    rfl

/-- The builds that are left are older than the one that ended. -/
theorem Sound.finish {build : Build} {others : List Build} {cache after : Cache V}
    (h : Sound ⟨cache, build :: others⟩) (hends : Ends build cache after) :
    Sound ⟨after, others⟩ := by
  obtain ⟨hbuild, horder⟩ := List.pairwise_cons.mp h.order
  have hne : ∀ other ∈ others, other ≠ build := by
    rintro other hmem rfl
    exact absurd (hbuild other hmem) (Nat.lt_irrefl _)
  refine ⟨?_, ?_, ?_, horder, ?_, ?_, ?_⟩
  · rw [hends.maximumSize]
    exact hends.few h.few
  · rw [hends.clock]
    intro place hmem
    rcases hends.places place hmem with ⟨rfl, _⟩ | hold
    · exact h.begun place.1 List.mem_cons_self
    · exact h.past place hold
  · rw [hends.clock]
    exact fun other hmem => h.begun other (List.mem_cons_of_mem _ hmem)
  · intro other hawaits
    obtain ⟨hother, hbefore⟩ := (hends.awaits other).mp hawaits
    exact (List.mem_cons.mp (h.running other hbefore)).resolve_left hother
  · intro other hmem value hplace
    rcases hends.places _ hplace with ⟨heq, _⟩ | hold
    · exact hne other hmem heq
    · exact h.unfilled other (List.mem_cons_of_mem _ hmem) value hold
  · refine (List.pairwise_cons.mp h.nested).2.imp_of_mem fun hmem _ hkept hawaits => ?_
    exact (hends.awaits _).mpr ⟨hne _ hmem, hkept ((hends.awaits _).mp hawaits).2⟩

/-! ### Events -/

/-- What an event does: it begins a build, ends one, clears the cache, or
leaves the slots as they are. -/
inductive Happens (busy : Busy V) : Event V → Busy V → Prop where
  | unchanged {event : Event V} {cache : Cache V} (hevent : event ≠ .clear)
      (hplaces : cache.places = busy.cache.places)
      (hmaximum : cache.maximumSize = busy.cache.maximumSize)
      (hclock : busy.cache.clock ≤ cache.clock) : Happens busy event { busy with cache := cache }
  | begin {key : String} (hnew : busy.cache.slot? key = none) :
      Happens busy (.request key)
        ⟨(busy.cache.request key).2, ⟨key, busy.cache.clock⟩ :: busy.running⟩
  | finish {value : Option V} {build : Build} {others : List Build} {cache : Cache V}
      (hrunning : busy.running = build :: others) (hends : Ends build busy.cache cache) :
      Happens busy (.finish value) ⟨cache, others⟩
  | clear : Happens busy .clear { busy with cache := busy.cache.clear }

theorem Sound.happens (h : busy.Sound) {event : Event V} (hadmits : busy.Admits event) :
    busy.Happens event (busy.after event) := by
  cases event with
  | request key =>
    rcases h.request_cases hadmits with ⟨hplaces, hafter⟩ | ⟨hnew, hafter⟩
    · rw [hafter]
      refine .unchanged (by simp) hplaces ?_ ?_
      · rw [Cache.request]
        split <;> rfl
      · rw [Cache.request]
        split <;> exact Nat.le_succ _
    · rw [hafter]
      exact .begin hnew
  | finish value =>
    cases hrunning : busy.running with
    | nil => exact absurd hrunning hadmits
    | cons build others =>
      rw [after, hrunning]
      cases value with
      | none => exact .finish hrunning (ends_abandon build busy.cache)
      | some value => exact .finish hrunning (ends_fill build busy.cache value)
  | get key =>
    refine .unchanged (by simp) (places_get busy.cache key) ?_ ?_
    · rw [Cache.get]
      split <;> rfl
    · rw [Cache.get]
      split
      · exact Nat.le_succ _
      · exact Nat.le_refl _
  | contains key => exact .unchanged (by simp) rfl rfl (Nat.le_refl _)
  | clear => exact .clear

/-- Every event keeps the invariant. -/
theorem Sound.of_happens (h : busy.Sound) {event : Event V} {later : Busy V}
    (hhappens : busy.Happens event later) : later.Sound := by
  cases hhappens with
  | unchanged _ hplaces hmaximum hclock => exact h.congr hplaces hmaximum hclock
  | begin hnew => exact h.begin hnew
  | finish hrunning hends =>
    obtain ⟨cache, running⟩ := busy
    dsimp only at hrunning
    subst hrunning
    exact h.finish hends
  | clear =>
    refine ⟨Nat.zero_le _, nofun, h.begun, h.order, nofun, fun _ _ _ => nofun, ?_⟩
    exact h.nested.imp fun _ => nofun

section

variable {event : Event V} {later : Busy V} {build : Build}

theorem Happens.maximumSize_eq (h : busy.Happens event later) :
    later.cache.maximumSize = busy.cache.maximumSize := by
  cases h with
  | unchanged _ _ hmaximum _ => exact hmaximum
  | begin hnew => rw [request_of_slot?_eq_none hnew]
  | finish _ hends => exact hends.maximumSize
  | clear => rfl

theorem Happens.clock_le (h : busy.Happens event later) :
    busy.cache.clock ≤ later.cache.clock := by
  cases h with
  | unchanged _ _ _ hclock => exact hclock
  | begin hnew =>
    rw [request_of_slot?_eq_none hnew]
    exact Nat.le_succ _
  | finish _ hends => exact Nat.le_of_eq hends.clock.symm
  | clear => exact Nat.le_refl _

/-- Nothing but a clearing parts a build from its slot. -/
theorem Sound.awaits_of_happens (h : busy.Sound) (hhappens : busy.Happens event later)
    (hclear : event ≠ .clear) (hmem : build ∈ later.running)
    (hawaits : build ∈ busy.running → busy.cache.Awaits build) : later.cache.Awaits build := by
  cases hhappens with
  | unchanged _ hplaces _ _ =>
    rw [Awaits, hplaces]
    exact hawaits hmem
  | begin hnew =>
    rw [awaits_request_iff hnew]
    rcases List.mem_cons.mp hmem with rfl | hold
    · exact .inr rfl
    · exact .inl (hawaits hold)
  | finish hrunning hends =>
    rw [hrunning] at hawaits
    have horder := h.order
    rw [hrunning] at horder
    refine (hends.awaits build).mpr ⟨?_, hawaits (List.mem_cons_of_mem _ hmem)⟩
    rintro rfl
    exact absurd ((List.pairwise_cons.mp horder).1 build hmem) (Nat.lt_irrefl _)
  | clear => exact absurd rfl hclear

/-- A build that lost its slot never gets one again. -/
theorem Happens.not_awaits (h : busy.Happens event later)
    (hbegun : build.installed < busy.cache.clock)
    (hlost : event ≠ .clear → ¬busy.cache.Awaits build) : ¬later.cache.Awaits build := by
  cases h with
  | unchanged hevent hplaces _ _ =>
    rw [Awaits, hplaces]
    exact hlost hevent
  | begin hnew =>
    rw [awaits_request_iff hnew]
    rintro (hold | rfl)
    · exact hlost nofun hold
    · exact absurd hbegun (Nat.lt_irrefl _)
  | finish _ hends =>
    exact fun hawaits => hlost nofun ((hends.awaits build).mp hawaits).2
  | clear => nofun

end

/-- If no slot waits, all slots have values, and they are few enough. -/
theorem Sound.size_le (h : busy.Sound) (hnone : ∀ build, ¬busy.cache.Awaits build) :
    busy.cache.size ≤ busy.cache.maximumSize := by
  have hbuilt : ∀ place ∈ busy.cache.places, place.2.isSome = true := by
    rintro ⟨build, value⟩ hmem
    cases value with
    | none => exact absurd hmem (hnone build)
    | some value => rfl
  rw [size_eq_length_places, ← List.countP_eq_length.mpr hbuilt]
  exact h.few

/-- A build that has no slot changes nothing when it ends. -/
theorem Sound.cache_finish (h : busy.Sound) {build : Build} {others : List Build}
    (hrunning : busy.running = build :: others) (hlost : ¬busy.cache.Awaits build)
    (value : Option V) : (busy.after (.finish value)).cache = busy.cache := by
  have hnone : ∀ other, ¬busy.cache.Awaits other := by
    intro other hawaits
    have hnested := h.nested
    have hmem := h.running other hawaits
    rw [hrunning] at hnested hmem
    rcases List.mem_cons.mp hmem with rfl | hmem
    · exact hlost hawaits
    · exact hlost ((List.pairwise_cons.mp hnested).1 other hmem hawaits)
  have hother : ∀ place ∈ busy.cache.places, place.1 ≠ build := by
    rintro ⟨_, value⟩ hmem rfl
    cases value with
    | none => exact hlost hmem
    | some value => exact h.unfilled _ (hrunning ▸ List.mem_cons_self) value hmem
  rw [after, hrunning]
  cases value with
  | none => exact abandon_eq_self hother
  | some value =>
    dsimp only
    rw [fill_eq, filled_eq_self hother, evict_eq_self (h.size_le hnone)]

/-! ### Runs -/

theorem Sound.afterAll (h : busy.Sound) {events : List (Event V)}
    (hadmits : busy.AdmitsAll events) : (busy.afterAll events).Sound := by
  induction events generalizing busy with
  | nil => exact h
  | cons event events ih => exact ih (h.of_happens (h.happens hadmits.1)) hadmits.2

theorem Sound.maximumSize_afterAll (h : busy.Sound) {events : List (Event V)}
    (hadmits : busy.AdmitsAll events) :
    (busy.afterAll events).cache.maximumSize = busy.cache.maximumSize := by
  induction events generalizing busy with
  | nil => rfl
  | cons event events ih =>
    have hhappens := h.happens hadmits.1
    exact (ih (h.of_happens hhappens) hadmits.2).trans hhappens.maximumSize_eq

/-- As long as nothing is cleared, the builds that run keep their slots, and
those that begin have theirs. -/
theorem Sound.awaits_afterAll (h : busy.Sound) {events : List (Event V)}
    (hadmits : busy.AdmitsAll events) (hclear : .clear ∉ events) {build : Build}
    (hmem : build ∈ (busy.afterAll events).running)
    (hawaits : build ∈ busy.running → busy.cache.Awaits build) :
    (busy.afterAll events).cache.Awaits build := by
  induction events generalizing busy with
  | nil => exact hawaits hmem
  | cons event events ih =>
    obtain ⟨hevent, hevents⟩ := not_or.mp (List.mem_cons.not.mp hclear)
    have hhappens := h.happens hadmits.1
    exact ih (h.of_happens hhappens) hadmits.2 hevents hmem fun hafter =>
      h.awaits_of_happens hhappens (Ne.symm hevent) hafter hawaits

/-- After a clearing, the builds that began before it have no slots. -/
theorem Sound.not_awaits_afterAll (h : busy.Sound) {events : List (Event V)}
    (hadmits : busy.AdmitsAll events) {build : Build} (hbegun : build.installed < busy.cache.clock)
    (hlost : .clear ∉ events → ¬busy.cache.Awaits build) :
    ¬(busy.afterAll events).cache.Awaits build := by
  induction events generalizing busy with
  | nil => exact hlost List.not_mem_nil
  | cons event events ih =>
    have hhappens := h.happens hadmits.1
    refine ih (h.of_happens hhappens) hadmits.2 (Nat.lt_of_lt_of_le hbegun hhappens.clock_le)
      fun hevents => hhappens.not_awaits hbegun fun hevent => hlost fun hmem => ?_
    exact (List.mem_cons.mp hmem).elim (fun heq => hevent heq.symm) hevents

end Busy

/-- After a script no more slots are left than the maximum size. -/
theorem size_runAll_le (maximumSize reductionSize : Nat) {steps : List Step}
    (hadmits : (Busy.new maximumSize reductionSize).AdmitsAll
      (eventsOfAll (.new maximumSize reductionSize) steps)) :
    (runAll (.new maximumSize reductionSize) steps).2.size ≤ maximumSize := by
  have hnew : (Busy.new maximumSize reductionSize : Busy String).Sound := Busy.sound_new _ _
  have hlast := hnew.afterAll hadmits
  have hmaximum := hnew.maximumSize_afterAll hadmits
  rw [Busy.new, afterAll_eventsOfAll] at hlast hmaximum
  have hsize := hlast.size_le fun build hawaits =>
    absurd (hlast.running build hawaits) List.not_mem_nil
  exact Nat.le_trans hsize (Nat.le_of_eq hmaximum)

/-- Builds inside builds do not disturb the cache, whatever they do, as long
as none asks for the value that it is to build.  The values are never more
than the maximum size, and without a running build the slots neither.  A
build keeps its slot until the cache is cleared.  After that it has no effect
on the cache when it ends. -/
theorem nested_builds_are_sound (maximumSize reductionSize : Nat) (before later : List (Event V))
    (hadmits : (Busy.new maximumSize reductionSize).AdmitsAll (before ++ later)) :
    let now := (Busy.new maximumSize reductionSize).afterAll before
    let last := now.afterAll later
    last.cache.builtKeys.length ≤ maximumSize ∧
    (last.running = [] → last.cache.size ≤ maximumSize) ∧
    (∀ build ∈ last.running, (build ∈ now.running → now.cache.Awaits build) →
      .clear ∉ later → last.cache.Awaits build) ∧
    ∀ build others value, last.running = build :: others → build ∈ now.running →
      .clear ∈ later → (last.after (.finish value)).cache = last.cache := by
  intro now last
  obtain ⟨hbefore, hlater⟩ := Busy.admitsAll_append.mp hadmits
  have hnew : (Busy.new maximumSize reductionSize : Busy V).Sound := Busy.sound_new _ _
  have hnow : now.Sound := hnew.afterAll hbefore
  have hlast : last.Sound := hnow.afterAll hlater
  have hmaximum : last.cache.maximumSize = maximumSize :=
    (hnow.maximumSize_afterAll hlater).trans (hnew.maximumSize_afterAll hbefore)
  refine ⟨?_, fun hrunning => ?_, fun build hmem hawaits hclear => ?_,
    fun build others value hrunning hbuild hclear => ?_⟩
  · rw [length_builtKeys, ← hmaximum]
    exact hlast.few
  · rw [← hmaximum]
    exact hlast.size_le fun build hawaits => by
      have hmem := hlast.running build hawaits
      rw [hrunning] at hmem
      cases hmem
  · exact hnow.awaits_afterAll hlater hclear hmem hawaits
  · refine hlast.cache_finish hrunning ?_ value
    exact hnow.not_awaits_afterAll hlater (hnow.begun build hbuild) (absurd hclear)

/-- The build of `a` begins another build in a cache for one value, loses its
slot to a clearing, and ends after a newer build of `a`. -/
theorem nested_builds_are_sound_of_cleared :
    let before : List (Event String) := [.request "a", .request "b", .finish (some "1")]
    let later : List (Event String) := [.clear, .request "a", .finish (some "new")]
    let now := (Busy.new 1 1).afterAll before
    let last := now.afterAll later
    (Busy.new 1 1).AdmitsAll (before ++ later) ∧ now.cache.Awaits ⟨"a", 0⟩ ∧
      last.running = [⟨"a", 0⟩] ∧ last.cache.peek? "a" = some "new" ∧
      (last.after (.finish (some "old"))).cache = last.cache := by
  intro before later now last
  have hadmits : (Busy.new 1 1).AdmitsAll (before ++ later) := by decide +kernel
  have hnow : now.running = [⟨"a", 0⟩] := by decide +kernel
  have hlast : last.running = [⟨"a", 0⟩] := by decide +kernel
  have hbuild : (⟨"a", 0⟩ : Build) ∈ now.running := hnow ▸ List.mem_cons_self
  -- The value of `b` is dropped at once, and `a` is not.
  obtain ⟨_, _, hkept, _⟩ := nested_builds_are_sound 1 1 [.request "a"]
    [.request "b", .finish (some "1")] (by decide +kernel)
  have hawaits : now.cache.Awaits ⟨"a", 0⟩ :=
    hkept ⟨"a", 0⟩ hbuild (fun _ => by decide +kernel) (by simp)
  obtain ⟨_, _, _, horphan⟩ := nested_builds_are_sound 1 1 before later hadmits
  exact ⟨hadmits, hawaits, hlast, by decide +kernel,
    horphan ⟨"a", 0⟩ [] (some "old") hlast hbuild List.mem_cons_self⟩

end FormulaEngine.Cache
