import FormulaEngine.Cache
import Mathlib.Tactic.Common

/-!
# What a cache holds

`Cache.Holds` says that a value is stored under a key.  A cache gets new
contents in one way only: `holds_of_fill` says that `Cache.fill` stores its
own value under its own key.  All other steps keep the contents or drop some
of them, evictions included.
-/

namespace FormulaEngine.Cache

variable {V : Type}

/-- Some slot of the key has the value. -/
def Holds (cache : Cache V) (key : String) (value : V) : Prop :=
  ∃ slot ∈ cache.slots, slot.key = key ∧ slot.value = some value

variable {cache : Cache V} {key other : String} {value stored : V}

theorem not_holds_of_slots_eq_nil (h : cache.slots = []) : ¬cache.Holds key value := by
  rintro ⟨slot, hmem, _⟩
  rw [h] at hmem
  cases hmem

theorem holds_of_slot? {slot : Slot V} (hslot : cache.slot? key = some slot)
    (hvalue : slot.value = some value) : cache.Holds key value := by
  have hkey := List.find?_some hslot
  exact ⟨slot, List.mem_of_find?_eq_some hslot, beq_iff_eq.mp hkey, hvalue⟩

/-! ## Steps that store nothing -/

/-- What remains in the cache was in it before. -/
def HoldsNoMore (after before : Cache V) : Prop :=
  ∀ key value, after.Holds key value → before.Holds key value

theorem holdsNoMore_of_subset {before after : Cache V} (h : after.slots ⊆ before.slots) :
    after.HoldsNoMore before := by
  rintro key value ⟨slot, hmem, hslot⟩
  exact ⟨slot, h hmem, hslot⟩

theorem exists_of_mem_touch {time : Nat} {slots : List (Slot V)} {slot : Slot V}
    (h : slot ∈ touch key time slots) :
    ∃ before ∈ slots, before.key = slot.key ∧ before.value = slot.value := by
  obtain ⟨before, hmem, rfl⟩ := List.mem_map.mp h
  refine ⟨before, hmem, ?_⟩
  split <;> exact ⟨rfl, rfl⟩

theorem get_holdsNoMore (cache : Cache V) (key : String) :
    (cache.get key).2.HoldsNoMore cache := by
  rw [get]
  split
  · rintro other value ⟨slot, hmem, hkey, hvalue⟩
    obtain ⟨before, hbefore, hkey', hvalue'⟩ := exists_of_mem_touch hmem
    exact ⟨before, hbefore, hkey'.trans hkey, hvalue'.trans hvalue⟩
  · exact fun _ _ h => h

theorem request_holdsNoMore (cache : Cache V) (key : String) :
    (cache.request key).2.HoldsNoMore cache := by
  rw [request]
  split
  · rintro other value ⟨slot, hmem, hkey, hvalue⟩
    obtain ⟨before, hbefore, hkey', hvalue'⟩ := exists_of_mem_touch hmem
    exact ⟨before, hbefore, hkey'.trans hkey, hvalue'.trans hvalue⟩
  · rintro other value ⟨slot, hmem, hkey, hvalue⟩
    rcases List.mem_append.mp hmem with hold | hnew
    · exact ⟨slot, hold, hkey, hvalue⟩
    · cases List.mem_singleton.mp hnew
      cases hvalue

theorem abandon_holdsNoMore (cache : Cache V) (key : String) (installed : Nat) :
    (cache.abandon key installed).HoldsNoMore cache :=
  holdsNoMore_of_subset (List.filter_sublist.subset)

theorem dropUntil_sublist (target : Nat) (keys : List String) (slots : List (Slot V)) :
    (dropUntil target keys slots).Sublist slots := by
  induction keys generalizing slots with
  | nil => exact .refl slots
  | cons key keys ih =>
    rw [dropUntil]
    split
    · exact .refl slots
    · exact (ih _).trans List.filter_sublist

theorem evict_holdsNoMore (cache : Cache V) : cache.evict.HoldsNoMore cache := by
  refine holdsNoMore_of_subset ?_
  rw [evict]
  split
  · exact List.Subset.refl cache.slots
  · exact (dropUntil_sublist _ _ _).subset

theorem clear_holdsNoMore (cache : Cache V) : cache.clear.HoldsNoMore cache :=
  holdsNoMore_of_subset (List.nil_subset _)

/-! ## Requests and builds -/

/-- A value that is found was stored. -/
theorem holds_of_request {after : Cache V} (h : cache.request key = (.value value, after)) :
    cache.Holds key value := by
  rw [request] at h
  split at h
  · rename_i slot hslot
    dsimp only at h
    split at h
    · rename_i found hfound
      cases h
      exact holds_of_slot? hslot hfound
    · cases h
  · cases h

/-- Only the built value is stored, and only under its key. -/
theorem holds_of_fill {installed : Nat} (h : (cache.fill key installed value).Holds other stored) :
    cache.Holds other stored ∨ other = key ∧ stored = value := by
  obtain ⟨slot, hmem, hkey, hvalue⟩ := evict_holdsNoMore _ _ _ h
  obtain ⟨before, hbefore, rfl⟩ := List.mem_map.mp hmem
  split at hkey
  · rename_i hfilled
    rw [Bool.and_eq_true, beq_iff_eq] at hfilled
    rw [if_pos (by simpa using hfilled)] at hvalue
    cases hvalue
    exact .inr ⟨hkey.symm.trans hfilled.1, rfl⟩
  · rename_i hkept
    rw [if_neg hkept] at hvalue
    exact .inl ⟨before, hbefore, hkey, hvalue⟩

end FormulaEngine.Cache
