import FormulaEngine.Proofs.Builtin.Averages
import FormulaEngine.Proofs.Cache.Alike
import Mathlib.Data.List.Sort

/-!
# Aggregates in another order of their arguments

The greatest and the smallest value of some numbers are determined by what the
numbers are, and so are the values at each place of a sorted order, although
equal numbers of different forms may stand there in either order
(`map_value_ascending`).  With them the median is determined too.

An average is a sum from the left, which another order may round otherwise or
bring out of range on the way.  Where every sum is exact the order has no
influence, and otherwise the error bound of `abs_average?_sub_mean_le` counts
twice.
-/

namespace FormulaEngine

namespace Builtin

open Decimal

/-! ## Values determine values -/

/-- Results of equal value lead to results of equal value. -/
theorem map_value_bind_congr {r s : Option Decimal} {f g : Decimal → Option Decimal}
    (h : r.map value = s.map value)
    (hfg : ∀ a b, a.value = b.value → (f a).map value = (g b).map value) :
    (r.bind f).map value = (s.bind g).map value := by
  cases r <;> cases s
  · rfl
  · cases h
  · cases h
  · exact hfg _ _ (Option.some_inj.mp h)

theorem sumFrom_congr {start start' : Decimal} {xs ys : List Decimal}
    (hstart : start.value = start'.value) (h : xs.map value = ys.map value) :
    (sumFrom start xs).map value = (sumFrom start' ys).map value := by
  induction xs generalizing start start' ys with
  | nil =>
    obtain rfl := List.map_eq_nil_iff.mp h.symm
    rw [sumFrom, sumFrom, Option.map_some, Option.map_some, hstart]
  | cons x xs ih =>
    obtain ⟨y, ys, rfl, hhead, htail⟩ := List.map_eq_cons_iff.mp h.symm
    have hadd : (start.add? x).map value = (start'.add? y).map value := by
      rw [map_value_add?, map_value_add?, hstart, hhead]
    rw [sumFrom_cons, sumFrom_cons]
    exact map_value_bind_congr hadd fun a b hnext => ih hnext htail.symm

theorem divideByCount?_congr {sum sum' : Decimal} (h : sum.value = sum'.value) {count : Nat}
    (hpos : 0 < count) :
    (divideByCount? sum count).map value = (divideByCount? sum' count).map value := by
  by_cases hfits : count < twoTo 96
  · rw [map_value_divideByCount? sum hpos hfits, map_value_divideByCount? sum' hpos hfits, h]
  · have hnone : Decimal.ofNat? count = none := dif_neg fun hparts => hfits hparts.1
    rw [divideByCount?, divideByCount?, hnone]

/-- The average is determined by the value of the sum and the count. -/
theorem average?_congr {xs ys : List Decimal} (hne : xs ≠ []) (hlength : xs.length = ys.length)
    (hsums : (sumFrom .zero xs).map value = (sumFrom .zero ys).map value) :
    (average? xs).map value = (average? ys).map value := by
  rw [average?_eq_bind, average?_eq_bind, ← hlength]
  exact map_value_bind_congr hsums fun a b hsum =>
    divideByCount?_congr hsum (List.length_pos_of_ne_nil hne)

/-! ## Permutations -/

section Permutations

variable {xs ys : List Decimal} (h : xs.Perm ys)

include h

/-- At each place of a sorted order stands one value. -/
theorem map_value_ascending : (ascending xs).map value = (ascending ys).map value := by
  have hperm : ((ascending xs).map value).Perm ((ascending ys).map value) :=
    (((ascending_perm xs).trans h).trans (ascending_perm ys).symm).map value
  exact hperm.eq_of_pairwise' (List.pairwise_map.mpr (ascending_pairwise xs))
    (List.pairwise_map.mpr (ascending_pairwise ys))

theorem map_value_middles : (middles xs).map value = (middles ys).map value := by
  rw [middles, middles, List.map_take, List.map_drop, List.map_take, List.map_drop,
    map_value_ascending h, h.length_eq]

theorem map_value_median?_perm (hne : xs ≠ []) :
    (median? xs).map value = (median? ys).map value := by
  have hne' : ys ≠ [] := fun hnil => hne (List.perm_nil.mp (hnil ▸ h))
  have hmiddles := map_value_middles h
  rw [map_value_median? hne, map_value_median? hne']
  refine average?_congr (middles_ne_nil hne) ?_ (sumFrom_congr rfl hmiddles)
  simpa using congrArg List.length hmiddles

theorem total_perm : total xs = total ys := (h.map value).sum_eq

theorem mean_perm : mean xs = mean ys := by
  rw [mean, mean, total_perm h, h.length_eq]

theorem map_value_average?_perm (hne : xs ≠ []) (hexact : HasExactSums xs)
    (hexact' : HasExactSums ys) : (average? xs).map value = (average? ys).map value :=
  average?_congr hne h.length_eq
    (by rw [map_value_sumFrom_zero hexact, map_value_sumFrom_zero hexact', total_perm h])

/-- Two orders lead at most two units apart, in each place that fits beside the
sums of both. -/
theorem abs_average?_sub_le {places : Nat} (hplaces : places ≤ 28) (hne : xs ≠ [])
    (hroom : SumsLeaveRoom places xs) (hroom' : SumsLeaveRoom places ys) {v w : Decimal}
    (hv : average? xs = some v) (hw : average? ys = some w) :
    |v.value - w.value| ≤ 2 / tenTo places := by
  have hne' : ys ≠ [] := fun hnil => hne (List.perm_nil.mp (hnil ▸ h))
  have herror := abs_average?_sub_mean_le hplaces hne hroom hv
  have herror' := abs_average?_sub_mean_le hplaces hne' hroom' hw
  rw [← mean_perm h, abs_sub_comm] at herror'
  calc |v.value - w.value|
      ≤ |v.value - mean xs| + |mean xs - w.value| := abs_sub_le _ _ _
    _ ≤ 1 / tenTo places + 1 / tenTo places := add_le_add herror herror'
    _ = 2 / tenTo places := by
      rw [← add_div]
      norm_num

theorem abs_average?_sub_le_two (hne : xs ≠ []) {v w : Decimal} (hv : average? xs = some v)
    (hw : average? ys = some w) : |v.value - w.value| ≤ 2 := by
  have hunits := abs_average?_sub_le h (Nat.zero_le 28) hne (sumsLeaveRoom_zero xs)
    (sumsLeaveRoom_zero ys) hv hw
  rwa [tenTo_zero, Nat.cast_one, div_one] at hunits

end Permutations

/-! ## Calls with permuted arguments -/

/-- Equal numbers, perhaps in different forms, or the same error. -/
abbrev SameResult : Except EvaluationError Decimal → Except EvaluationError Decimal → Prop :=
  ResultsAlike fun a b => a.equals b = true

theorem sameResult_of_value_eq {a b : Decimal} (h : a.value = b.value) :
    SameResult (.ok a) (.ok b) :=
  .ok (value_eq_iff.mp h)

theorem sameResult_refl (result : Except EvaluationError Decimal) : SameResult result result := by
  cases result
  · exact .error _
  · exact sameResult_of_value_eq rfl

theorem sameResult_orOverflow {r s : Option Decimal} (h : r.map value = s.map value) :
    SameResult (orOverflow r) (orOverflow s) := by
  cases r <;> cases s
  · exact .error EvaluationError.overflow
  · cases h
  · cases h
  · exact sameResult_of_value_eq (Option.some_inj.mp h)

theorem eq_overflow_of_orOverflow {result : Option Decimal} {e : EvaluationError}
    (h : orOverflow result = .error e) : e = .overflow := by
  cases result <;> cases h
  rfl

section Calls

variable {x y : Decimal} {xs ys : List Decimal} (h : (x :: xs).Perm (y :: ys))

include h

theorem value_maximum_perm : (maximum x xs).value = (maximum y ys).value := by
  obtain ⟨hmem, habove⟩ := maximum_greatest x xs
  obtain ⟨hmem', habove'⟩ := maximum_greatest y ys
  exact le_antisymm (habove' _ (h.subset hmem)) (habove _ (h.symm.subset hmem'))

theorem value_minimum_perm : (minimum x xs).value = (minimum y ys).value := by
  obtain ⟨hmem, hbelow⟩ := minimum_least x xs
  obtain ⟨hmem', hbelow'⟩ := minimum_least y ys
  exact le_antisymm (hbelow _ (h.symm.subset hmem')) (hbelow' _ (h.subset hmem))

end Calls

/-- The order of the arguments has no influence on the greatest and the smallest
value and on the median.  It has none on an average whose sums are exact in both
orders.  Other averages are close together if both are in range, and their
errors are the same if neither is. -/
theorem aggregates_ignore_order (caseSensitive : Bool) (draw : Decimal) {xs ys : List Decimal}
    (h : xs.Perm ys) :
    let functions := functionRegistry caseSensitive draw
    (∀ name ∈ ["max", "min", "median"],
        SameResult (functions.call name xs) (functions.call name ys)) ∧
      (HasExactSums xs → HasExactSums ys →
        SameResult (functions.call "avg" xs) (functions.call "avg" ys)) ∧
      (∀ v w, functions.call "avg" xs = .ok v → functions.call "avg" ys = .ok w →
        |v.value - w.value| ≤ 2 ∧
          ∀ places ≤ 28, SumsLeaveRoom places xs → SumsLeaveRoom places ys →
            |v.value - w.value| ≤ 2 / tenTo places) ∧
      ∀ e e', functions.call "avg" xs = .error e → functions.call "avg" ys = .error e' →
        e = e' := by
  dsimp only
  cases xs with
  | nil =>
    obtain rfl := List.nil_perm.mp h
    have havg : (functionRegistry caseSensitive draw).call "avg" [] =
        .error (.emptyArguments "avg") := call_aggregate_nil caseSensitive draw (by simp)
    refine ⟨fun name _ => sameResult_refl _, fun _ _ => sameResult_refl _,
      fun v w hv => ?_, fun e e' he he' => Except.error.inj (he.symm.trans he')⟩
    rw [havg] at hv
    cases hv
  | cons x xs =>
    cases ys with
    | nil => exact absurd (List.perm_nil.mp h) (List.cons_ne_nil x xs)
    | cons y ys =>
      have hne := List.cons_ne_nil x xs
      simp only [List.forall_mem_cons, List.not_mem_nil, false_implies, implies_true, and_true,
        call_max, call_min, call_median]
      refine ⟨⟨sameResult_of_value_eq (value_maximum_perm h),
        sameResult_of_value_eq (value_minimum_perm h),
        sameResult_orOverflow (map_value_median?_perm h hne)⟩, fun hexact hexact' => ?_,
        fun v w hv hw => ?_, fun e e' he he' => ?_⟩
      · rw [call_avg, call_avg]
        exact sameResult_orOverflow (map_value_average?_perm h hne hexact hexact')
      · rw [call_avg_eq_ok_iff] at hv hw
        exact ⟨abs_average?_sub_le_two h hne hv hw, fun places hplaces hroom hroom' =>
          abs_average?_sub_le h hplaces hne hroom hroom' hv hw⟩
      · rw [call_avg] at he he'
        rw [eq_overflow_of_orOverflow he, eq_overflow_of_orOverflow he']

/-- The greatest decimal. -/
def greatest : Decimal :=
  ⟨false, 79228162514264337593543950335, 0, by decide, Decimal.integer_scale_le⟩

theorem average?_edges_first : average? [edge, edge, edge.negate] =
    some ⟨false, 23333333333333333333333333336, 28, by decide, greatest_scale_le⟩ := by
  decide +kernel

theorem average?_opposites_first : average? [edge, edge.negate, edge] =
    some ⟨false, 23333333333333333333333333334, 28, by decide, greatest_scale_le⟩ := by
  decide +kernel

/-- An average may differ with the order of its arguments, and it may be out of
range in one order only. -/
theorem average_depends_on_order :
    let functions := functionRegistry false .zero
    ([edge, edge, edge.negate].Perm [edge, edge.negate, edge] ∧
        ∃ v w, functions.call "avg" [edge, edge, edge.negate] = .ok v ∧
          functions.call "avg" [edge, edge.negate, edge] = .ok w ∧ v.equals w = false) ∧
      [greatest, greatest, greatest.negate].Perm [greatest, greatest.negate, greatest] ∧
        functions.call "avg" [greatest, greatest, greatest.negate] = .error .overflow ∧
        ∃ w, functions.call "avg" [greatest, greatest.negate, greatest] = .ok w := by
  have hswap (d : Decimal) : [d, d, d.negate].Perm [d, d.negate, d] :=
    (List.Perm.swap d.negate d []).cons d
  have hoverflow : average? [greatest, greatest, greatest.negate] = none := by decide +kernel
  have hfits : average? [greatest, greatest.negate, greatest] =
      some ⟨false, 26409387504754779197847983445, 0, by decide, integer_scale_le⟩ := by
    decide +kernel
  refine ⟨⟨hswap edge, _, _, call_avg_eq_ok_iff.mpr average?_edges_first,
    call_avg_eq_ok_iff.mpr average?_opposites_first, by decide⟩,
    hswap greatest, ?_, _, call_avg_eq_ok_iff.mpr hfits⟩
  rw [call_avg, hoverflow]
  rfl

/-- Short numbers in two orders, and numbers on the edge in two orders. -/
theorem aggregates_of_halves_and_edges :
    let functions := functionRegistry false .zero
    ([shortHalf, longHalf, .ofInt64 7].Perm [longHalf, shortHalf, .ofInt64 7] ∧
        HasExactSums [shortHalf, longHalf, .ofInt64 7] ∧
        HasExactSums [longHalf, shortHalf, .ofInt64 7] ∧
        SameResult (functions.call "median" [shortHalf, longHalf, .ofInt64 7])
          (functions.call "median" [longHalf, shortHalf, .ofInt64 7]) ∧
        SameResult (functions.call "avg" [shortHalf, longHalf, .ofInt64 7])
          (functions.call "avg" [longHalf, shortHalf, .ofInt64 7])) ∧
      [edge, edge, edge.negate].Perm [edge, edge.negate, edge] ∧
        SumsLeaveRoom 27 [edge, edge, edge.negate] ∧
        SumsLeaveRoom 27 [edge, edge.negate, edge] ∧
        ∃ v w, functions.call "avg" [edge, edge, edge.negate] = .ok v ∧
          functions.call "avg" [edge, edge.negate, edge] = .ok w ∧
          |v.value - w.value| ≤ 2 / tenTo 27 := by
  have hperm : [shortHalf, longHalf, .ofInt64 7].Perm [longHalf, shortHalf, .ofInt64 7] :=
    .swap longHalf shortHalf [.ofInt64 7]
  have hexact : HasExactSums [shortHalf, longHalf, .ofInt64 7] :=
    hasExactSums_of_units (show 2 ≤ 28 by decide) (by decide) (by decide)
  have hexact' : HasExactSums [longHalf, shortHalf, .ofInt64 7] :=
    hasExactSums_of_units (show 2 ≤ 28 by decide) (by decide) (by decide)
  have hedges : [edge, edge, edge.negate].Perm [edge, edge.negate, edge] :=
    .cons edge (.swap edge.negate edge [])
  have hroom : SumsLeaveRoom 27 [edge, edge, edge.negate] :=
    sumsLeaveRoom_of_le_scale (by decide +kernel)
  have hroom' : SumsLeaveRoom 27 [edge, edge.negate, edge] :=
    sumsLeaveRoom_of_le_scale (by decide +kernel)
  obtain ⟨hordered, hmean, -, -⟩ := aggregates_ignore_order false .zero hperm
  obtain ⟨-, -, hnear, -⟩ := aggregates_ignore_order false .zero hedges
  exact ⟨⟨hperm, hexact, hexact', hordered "median" (by simp), hmean hexact hexact'⟩,
    hedges, hroom, hroom', _, _, call_avg_eq_ok_iff.mpr average?_edges_first,
    call_avg_eq_ok_iff.mpr average?_opposites_first,
    (hnear _ _ (call_avg_eq_ok_iff.mpr average?_edges_first)
      (call_avg_eq_ok_iff.mpr average?_opposites_first)).2 27 (by decide) hroom hroom'⟩

end Builtin

end FormulaEngine
