/-!
# The cache of built values

A cache keeps one slot per key.  A slot is installed when its value is asked
for the first time, it is filled when the value has been built, and it is
taken away again if the build fails.  Every request stamps the slot with the
time of a clock that ticks with each request.

When the cache has grown past its maximum size, the slots that were used
longest ago are dropped until the size is the maximum less the reduction.  A
slot whose value is still being built is never dropped.  It can be cleared
away, though, and then the value that is being built is stored nowhere, even
if a new slot was installed under the same key in the meantime.

Building a value is not part of this module.  `Cache.request` either finds a
value or opens a slot, and `Cache.fill` or `Cache.abandon` says how the
build ended.
-/

namespace FormulaEngine

/-- The place of one key.  The tick of its installation tells apart two
slots that were installed under one key at different times. -/
structure Slot (V : Type) where
  key : String
  installed : Nat
  value : Option V
  lastAccess : Nat

/-- Slots under distinct keys, in the order of their installation, with the
clock. -/
structure Cache (V : Type) where
  maximumSize : Nat
  reductionSize : Nat
  slots : List (Slot V)
  clock : Nat

namespace Cache

variable {V : Type}

/-- The maximum size of a cache for which none is given. -/
def defaultMaximumSize : Nat := 500

/-- The reduction size of a cache for which none is given. -/
def defaultReductionSize : Nat := 50

/-- A cache without slots. -/
def new (maximumSize reductionSize : Nat) : Cache V := ⟨maximumSize, reductionSize, [], 0⟩

/-! ## Looking -/

/-- How many slots there are. -/
def size (cache : Cache V) : Nat := cache.slots.length

/-- Whether there is no slot. -/
def isEmpty (cache : Cache V) : Bool := cache.slots.isEmpty

/-- The slot of a key. -/
def slot? (cache : Cache V) (key : String) : Option (Slot V) :=
  cache.slots.find? fun slot => slot.key == key

/-- The value of a key, without counting as an access. -/
def peek? (cache : Cache V) (key : String) : Option V :=
  match cache.slot? key with
  | some slot => slot.value
  | none => none

/-- Whether a value is stored under a key. -/
def contains (cache : Cache V) (key : String) : Bool := (cache.peek? key).isSome

/-- The keys under which values are stored. -/
def builtKeys (cache : Cache V) : List String :=
  (cache.slots.filter fun slot => slot.value.isSome).map Slot.key

/-! ## Requests -/

/-- Stamps the slot of a key with a time. -/
def touch (key : String) (time : Nat) (slots : List (Slot V)) : List (Slot V) :=
  slots.map fun slot => if slot.key == key then { slot with lastAccess := time } else slot

/-- The value of a key, which counts as an access to its slot. -/
def get (cache : Cache V) (key : String) : Option V × Cache V :=
  match cache.slot? key with
  | some slot =>
    (slot.value,
      { cache with slots := touch key cache.clock cache.slots, clock := cache.clock + 1 })
  | none => (none, cache)

/-- What a request finds: the value, or a slot to fill, known by the tick of
its installation. -/
inductive Found (V : Type) where
  | value (value : V)
  | vacant (installed : Nat)

/-- Asks for the value of a key and installs a slot if there is none. -/
def request (cache : Cache V) (key : String) : Found V × Cache V :=
  match cache.slot? key with
  | some slot =>
    let found := match slot.value with
      | some value => Found.value value
      | none => Found.vacant slot.installed
    (found,
      { cache with slots := touch key cache.clock cache.slots, clock := cache.clock + 1 })
  | none =>
    (.vacant cache.clock,
      { cache with
        slots := cache.slots ++ [⟨key, cache.clock, none, cache.clock⟩]
        clock := cache.clock + 1 })

/-- Takes a slot away whose build has failed. -/
def abandon (cache : Cache V) (key : String) (installed : Nat) : Cache V :=
  { cache with
    slots := cache.slots.filter fun slot => !(slot.key == key && slot.installed == installed) }

/-! ## Eviction -/

/-- Drops the slots of the given keys that have values, one after the other,
until at most `target` slots are left. -/
def dropUntil (target : Nat) : List String → List (Slot V) → List (Slot V)
  | [], slots => slots
  | key :: keys, slots =>
    if slots.length ≤ target then slots
    else
      dropUntil target keys
        (slots.filter fun slot => !(slot.key == key && slot.value.isSome))

/-- The keys of the slots, those used longest ago first. -/
def byAge (slots : List (Slot V)) : List String :=
  (slots.mergeSort fun a b => decide (a.lastAccess ≤ b.lastAccess)).map Slot.key

/-- Drops old slots if there are too many. -/
def evict (cache : Cache V) : Cache V :=
  if cache.size ≤ cache.maximumSize then cache
  else
    { cache with
      slots := dropUntil (cache.maximumSize - cache.reductionSize) (byAge cache.slots)
        cache.slots }

/-- Stores a built value in its slot, if the slot is still there, and drops
old slots if there are too many. -/
def fill (cache : Cache V) (key : String) (installed : Nat) (value : V) : Cache V :=
  evict
    { cache with
      slots := cache.slots.map fun slot =>
        if slot.key == key && slot.installed == installed then { slot with value := some value }
        else slot }

/-- The cache without its slots. -/
def clear (cache : Cache V) : Cache V := { cache with slots := [] }

end Cache

end FormulaEngine
