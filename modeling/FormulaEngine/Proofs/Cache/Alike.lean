import FormulaEngine.Proofs.Cache.Recency

/-!
# Caches that hold alike values

Two caches of the same sizes go through the same accesses, but the values that
are built for one are not those that are built for the other.  As long as the
builds fail together and their values are related, the caches have the same
keys, and the values under a key are related.

`Alike` says this of two recency lists, and of two caches by way of their
lists.  There is one lemma for each way to use a cache.
-/

namespace FormulaEngine

variable {V W E : Type}

/-- The same error, or related values. -/
inductive ResultsAlike (R : V → W → Prop) : Except E V → Except E W → Prop where
  | ok {value : V} {other : W} (h : R value other) : ResultsAlike R (.ok value) (.ok other)
  | error (e : E) : ResultsAlike R (.error e) (.error e)

/-! ## Lists -/

namespace Recency

/-- Lists for the same sizes, with the same keys in the same order and related
values. -/
structure Alike (R : V → W → Prop) (list : Recency V) (other : Recency W) : Prop where
  maximumSize : other.maximumSize = list.maximumSize
  reductionSize : other.reductionSize = list.reductionSize
  pairs : List.Forall₂ (fun pair pair' => pair'.1 = pair.1 ∧ R pair.2 pair'.2)
    list.pairs other.pairs

variable {R : V → W → Prop} {list : Recency V} {other : Recency W}

theorem Alike.find? (h : list.Alike R other) (key : String) :
    Option.Rel R (list.find? key) (other.find? key) := by
  have hpairs := h.pairs
  unfold Recency.find?
  generalize list.pairs = pairs, other.pairs = pairs' at hpairs
  induction hpairs with
  | nil => exact .none
  | @cons pair pair' _ _ hpair _ ih =>
    rw [List.lookup_cons, List.lookup_cons, hpair.1]
    by_cases hkey : key = pair.1
    · simpa [hkey] using hpair.2
    · simpa [beq_false_of_ne hkey] using ih

theorem Alike.use (h : list.Alike R other) (key : String) {value : V} {value' : W}
    (hvalue : R value value') : (list.use key value).Alike R (other.use key value') := by
  refine ⟨h.maximumSize, h.reductionSize, .cons ⟨rfl, hvalue⟩ (List.rel_filter ?_ h.pairs)⟩
  intro pair pair' hpair
  show (pair.1 != key) = true ↔ (pair'.1 != key) = true
  rw [hpair.1]

theorem Alike.trim (h : list.Alike R other) : list.trim.Alike R other.trim := by
  rw [Recency.trim, Recency.trim, h.maximumSize, h.reductionSize, ← h.pairs.length_eq]
  split
  · exact h
  · exact ⟨rfl, rfl, List.forall₂_take _ h.pairs⟩

theorem Alike.put (h : list.Alike R other) (key : String) {value : V} {value' : W}
    (hvalue : R value value') : (list.put key value).Alike R (other.put key value') :=
  Alike.trim ⟨h.maximumSize, h.reductionSize, .cons ⟨rfl, hvalue⟩ h.pairs⟩

/-- Alike results are added alike. -/
theorem Alike.getOrAdd (h : list.Alike R other) (key : String) {built : Except E V}
    {built' : Except E W} (hbuilt : ResultsAlike R built built') :
    ResultsAlike R (list.getOrAdd key built).1.result (other.getOrAdd key built').1.result ∧
      (other.getOrAdd key built').1.ran = (list.getOrAdd key built).1.ran ∧
      (list.getOrAdd key built).2.Alike R (other.getOrAdd key built').2 := by
  have hfind := h.find? key
  unfold Recency.getOrAdd
  generalize list.find? key = found, other.find? key = found' at hfind ⊢
  cases hfind with
  | some hvalue => exact ⟨.ok hvalue, rfl, h.use key hvalue⟩
  | none =>
    cases hbuilt with
    | ok hvalue => exact ⟨.ok hvalue, rfl, h.put key hvalue⟩
    | error e => exact ⟨.error e, rfl, h⟩

theorem Alike.get (h : list.Alike R other) (key : String) :
    (other.get key).1.isSome = (list.get key).1.isSome ∧
      (list.get key).2.Alike R (other.get key).2 := by
  have hfind := h.find? key
  unfold Recency.get
  generalize list.find? key = found, other.find? key = found' at hfind ⊢
  cases hfind with
  | some hvalue => exact ⟨rfl, h.use key hvalue⟩
  | none => exact ⟨rfl, h⟩

theorem Alike.clear (h : list.Alike R other) : list.clear.Alike R other.clear :=
  ⟨h.maximumSize, h.reductionSize, .nil⟩

/-- Alike lists look the same. -/
theorem Alike.view_eq (h : list.Alike R other) : other.view = list.view := by
  have hcontains : (fun key => (other.find? key).isSome) = fun key => (list.find? key).isSome := by
    funext key
    have hfind := h.find? key
    generalize list.find? key = found, other.find? key = found' at hfind ⊢
    cases hfind <;> rfl
  have hempty : other.pairs.isEmpty = list.pairs.isEmpty := by
    rw [Bool.eq_iff_iff, List.isEmpty_iff_length_eq_zero, List.isEmpty_iff_length_eq_zero,
      h.pairs.length_eq]
  rw [view, view, hcontains, hempty, h.pairs.length_eq]

end Recency

/-! ## Caches -/

namespace Cache

/-- Caches whose recency lists are alike. -/
def Alike (R : V → W → Prop) (cache : Cache V) (other : Cache W) : Prop :=
  ∃ list list', cache.Refines list ∧ other.Refines list' ∧ Recency.Alike R list list'

theorem alike_new (R : V → W → Prop) (maximumSize reductionSize : Nat) :
    Alike R (new maximumSize reductionSize) (new maximumSize reductionSize) :=
  ⟨_, _, refines_new maximumSize reductionSize, refines_new maximumSize reductionSize,
    rfl, rfl, .nil⟩

variable {R S : V → W → Prop} {cache : Cache V} {other : Cache W}

/-- Values that are related may be related otherwise. -/
theorem Alike.imp (hRS : ∀ value value', R value value' → S value value')
    (h : cache.Alike R other) : cache.Alike S other := by
  obtain ⟨list, list', hlist, hlist', halike⟩ := h
  refine ⟨list, list', hlist, hlist', halike.maximumSize, halike.reductionSize, ?_⟩
  exact halike.pairs.imp fun pair pair' hpair => ⟨hpair.1, hRS _ _ hpair.2⟩

/-- Alike caches have the same size and hold the same keys. -/
theorem Alike.view_eq (h : cache.Alike R other) : other.view = cache.view := by
  obtain ⟨list, list', hlist, hlist', halike⟩ := h
  rw [hlist.view_eq, hlist'.view_eq, halike.view_eq]

theorem Alike.getOrAdd (h : cache.Alike R other) (key : String) {built : Except E V}
    {built' : Except E W} (hbuilt : ResultsAlike R built built') :
    ResultsAlike R (cache.getOrAdd key built).1.result (other.getOrAdd key built').1.result ∧
      (other.getOrAdd key built').1.ran = (cache.getOrAdd key built).1.ran ∧
      (cache.getOrAdd key built).2.Alike R (other.getOrAdd key built').2 := by
  obtain ⟨list, list', hlist, hlist', halike⟩ := h
  obtain ⟨hadded, hafter⟩ := hlist.getOrAdd key built
  obtain ⟨hadded', hafter'⟩ := hlist'.getOrAdd key built'
  obtain ⟨hresult, hran, halike⟩ := halike.getOrAdd key hbuilt
  rw [hadded, hadded']
  exact ⟨hresult, hran, _, _, hafter, hafter', halike⟩

theorem Alike.get (h : cache.Alike R other) (key : String) :
    (other.get key).1.isSome = (cache.get key).1.isSome ∧
      (cache.get key).2.Alike R (other.get key).2 := by
  obtain ⟨list, list', hlist, hlist', halike⟩ := h
  obtain ⟨hgot, hafter⟩ := hlist.get key
  obtain ⟨hgot', hafter'⟩ := hlist'.get key
  obtain ⟨hsome, halike⟩ := halike.get key
  rw [hgot, hgot']
  exact ⟨hsome, _, _, hafter, hafter', halike⟩

theorem Alike.clear (h : cache.Alike R other) : cache.clear.Alike R other.clear := by
  obtain ⟨list, list', hlist, hlist', halike⟩ := h
  exact ⟨_, _, hlist.clear, hlist'.clear, halike.clear⟩

end Cache

end FormulaEngine
