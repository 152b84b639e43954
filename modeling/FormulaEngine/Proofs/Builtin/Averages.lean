import FormulaEngine.Proofs.Builtin.OrderStatistics
import Mathlib.Algebra.Order.BigOperators.Group.List
import Mathlib.Tactic.Ring

/-!
# Averages and the numbers that they are taken of

The exact average of some numbers lies between the smallest and the greatest of
them, and rounding the quotient does not take it out of there, because rounding
does not pass a decimal.  Only the sum can lead outside, where its digits do not
fit: two numbers of 29 digits may have a sum that is rounded up.

* `rounded?_mean`: where no sum on the way is rounded, the average is the correctly
  rounded exact one.
* `abs_average?_sub_mean_le`: in general it is off by at most one unit in every place
  that fits beside the sums.
* `map_value_median?`: the median is the average of the one or two numbers in the
  middle.
* `staysNear_of_average?` puts these together, and both averages and medians stay
  near their arguments by it.
-/

namespace FormulaEngine

namespace Builtin

open Decimal

/-! ## Sums and quotients in sequence -/

theorem sumFrom_cons (start x : Decimal) (xs : List Decimal) :
    sumFrom start (x :: xs) = (start.add? x).bind (sumFrom · xs) := by
  rw [sumFrom]
  cases start.add? x <;> rfl

theorem zero_add? (d : Decimal) : Decimal.zero.add? d = some d := rfl

/-- The first number is no result of an addition. -/
theorem sumFrom_zero_cons (x : Decimal) (xs : List Decimal) :
    sumFrom .zero (x :: xs) = sumFrom x xs := by
  rw [sumFrom_cons, zero_add?, Option.bind_some]

theorem average?_eq_bind (xs : List Decimal) :
    average? xs = (sumFrom .zero xs).bind (divideByCount? · xs.length) := by
  rw [average?]
  cases sumFrom .zero xs <;> rfl

/-! ## Exact sums -/

/-- The exact sum of some numbers. -/
def total (xs : List Decimal) : ℚ := (xs.map value).sum

/-- The exact average of some numbers. -/
def mean (xs : List Decimal) : ℚ := total xs / xs.length

theorem total_cons (x : Decimal) (xs : List Decimal) : total (x :: xs) = x.value + total xs :=
  List.sum_cons

/-- The sums on the way, those of the first so many numbers, are decimals, so that
nothing has to be rounded. -/
def HasExactSums (xs : List Decimal) : Prop := ∀ count, IsValue (total (xs.take count))

theorem exists_units_of_total {places : Nat} {xs : List Decimal}
    (hscale : ∀ x ∈ xs, x.scale ≤ places) :
    ∃ sum : Int, total xs = sum / tenTo places ∧
      sum.natAbs ≤ (xs.map fun x => (x.units places).natAbs).sum := by
  induction xs with
  | nil => exact ⟨0, by simp [total], Nat.le_refl 0⟩
  | cons x xs ih =>
    rw [List.forall_mem_cons] at hscale
    obtain ⟨sum, htotal, hle⟩ := ih hscale.2
    refine ⟨x.units places + sum, ?_, ?_⟩
    · rw [total_cons, htotal, value_eq_units hscale.1, Int.cast_add, add_div]
    · rw [List.map_cons, List.sum_cons]
      omega

/-- Numbers that all end in some place have exact sums if their units in it, without
signs, together fit into a coefficient. -/
theorem hasExactSums_of_units {places : Nat} (hplaces : places ≤ 28) {xs : List Decimal}
    (hscale : ∀ x ∈ xs, x.scale ≤ places)
    (hfits : (xs.map fun x => (x.units places).natAbs).sum < twoTo 96) : HasExactSums xs := by
  intro count
  obtain ⟨sum, htotal, hle⟩ :=
    exists_units_of_total fun x hx => hscale x (List.mem_of_mem_take hx)
  have hpart : ((xs.take count).map fun x => (x.units places).natAbs).sum ≤
      (xs.map fun x => (x.units places).natAbs).sum :=
    ((List.take_sublist count xs).map _).sum_le_sum fun _ _ => Nat.zero_le _
  rw [htotal]
  exact isValue_of_units sum hplaces (by omega)

theorem map_value_sumFrom {start : Decimal} {xs : List Decimal}
    (h : ∀ count, IsValue (start.value + total (xs.take count))) :
    (sumFrom start xs).map value = some (start.value + total xs) := by
  induction xs generalizing start with
  | nil => simp [sumFrom, total]
  | cons x xs ih =>
    have hfirst : IsValue (start.value + x.value) := by simpa [total] using h 1
    obtain ⟨sum, hsum, hvalue⟩ := exists_add?_of_isValue hfirst
    rw [sumFrom_cons, hsum, Option.bind_some, ih, hvalue, total_cons, add_assoc]
    intro count
    have hnext := h (count + 1)
    rwa [List.take_succ_cons, total_cons, ← add_assoc, ← hvalue] at hnext

theorem map_value_sumFrom_zero {xs : List Decimal} (h : HasExactSums xs) :
    (sumFrom .zero xs).map value = some (total xs) := by
  have hsum : (sumFrom .zero xs).map value = some (value .zero + total xs) := by
    refine map_value_sumFrom fun count => ?_
    rw [value_zero, zero_add]
    exact h count
  rwa [value_zero, zero_add] at hsum

/-- An average is the quotient of a sum and a count that fits. -/
theorem exists_sum_of_average? {xs : List Decimal} {v : Decimal} (h : average? xs = some v) :
    ∃ sum, sumFrom .zero xs = some sum ∧ divideByCount? sum xs.length = some v ∧
      xs.length < twoTo 96 := by
  rw [average?_eq_bind, Option.bind_eq_some_iff] at h
  obtain ⟨sum, hsum, hquotient⟩ := h
  refine ⟨sum, hsum, hquotient, ?_⟩
  rw [divideByCount?] at hquotient
  split at hquotient
  · rename_i divisor hdivisor
    obtain ⟨-, hcoefficient, -⟩ := eq_of_ofParts?_eq_some hdivisor
    exact hcoefficient ▸ divisor.coefficient_lt
  · cases hquotient

/-- The rounded average of what was added up. -/
theorem exists_rounded_of_average? {xs : List Decimal} {v : Decimal} (hne : xs ≠ [])
    (h : average? xs = some v) :
    ∃ sum, sumFrom .zero xs = some sum ∧ rounded? (sum.value / xs.length) = some v.value := by
  obtain ⟨sum, hsum, hquotient, hfits⟩ := exists_sum_of_average? h
  have hvalue := map_value_divideByCount? sum (List.length_pos_of_ne_nil hne) hfits
  rw [hquotient, Option.map_some] at hvalue
  exact ⟨sum, hsum, hvalue.symm⟩

/-- Where no sum is rounded, the average is the correctly rounded exact one. -/
theorem rounded?_mean {xs : List Decimal} {v : Decimal} (hne : xs ≠ []) (hexact : HasExactSums xs)
    (h : average? xs = some v) : rounded? (mean xs) = some v.value := by
  obtain ⟨sum, hsum, hvalue⟩ := exists_rounded_of_average? hne h
  have htotal := map_value_sumFrom_zero hexact
  rw [hsum, Option.map_some, Option.some_inj] at htotal
  rwa [htotal] at hvalue

/-! ## Rounded sums -/

/-- The sums that are computed on the way. -/
def partialSums (start : Decimal) : List Decimal → List Decimal
  | [] => []
  | x :: xs =>
    match start.add? x with
    | some sum => sum :: partialSums sum xs
    | none => []

/-- The sums of two and more numbers that are computed on the way.  The first number
is not among them, because adding it to zero gives back that number. -/
def laterSums : List Decimal → List Decimal
  | [] => []
  | x :: xs => partialSums x xs

/-- So many places fit beside every sum of two and more numbers on the way. -/
def SumsLeaveRoom (places : Nat) (xs : List Decimal) : Prop :=
  ∀ sum ∈ laterSums xs, |sum.value| * tenTo places < twoTo 96

theorem exists_next_of_sumFrom {start sum x : Decimal} {xs : List Decimal}
    (h : sumFrom start (x :: xs) = some sum) :
    ∃ next, start.add? x = some next ∧ sumFrom next xs = some sum ∧
      partialSums start (x :: xs) = next :: partialSums next xs := by
  rw [sumFrom_cons, Option.bind_eq_some_iff] at h
  obtain ⟨next, hnext, hlater⟩ := h
  exact ⟨next, hnext, hlater, by rw [partialSums, hnext]⟩

/-- Each sum on the way adds at most half a unit to the error. -/
theorem abs_sumFrom_sub_le {places : Nat} (hplaces : places ≤ 28) {start sum : Decimal}
    {xs : List Decimal} (hroom : ∀ s ∈ partialSums start xs, |s.value| * tenTo places < twoTo 96)
    (h : sumFrom start xs = some sum) :
    |sum.value - (start.value + total xs)| ≤ xs.length * (1 / (2 * tenTo places)) := by
  induction xs generalizing start with
  | nil =>
    cases h
    simp [total]
  | cons x xs ih =>
    obtain ⟨next, hadd, hlater, hsums⟩ := exists_next_of_sumFrom h
    rw [hsums, List.forall_mem_cons] at hroom
    have hvalue := map_value_add? start x
    rw [hadd, Option.map_some] at hvalue
    have hstep := abs_sub_le_of_rounded? hvalue.symm hplaces hroom.1
    have hrest := ih hroom.2 hlater
    have hsplit : sum.value - (start.value + total (x :: xs)) =
        (sum.value - (next.value + total xs)) + (next.value - (start.value + x.value)) := by
      rw [total_cons]
      ring
    rw [hsplit, List.length_cons, Nat.cast_succ, add_one_mul]
    exact (abs_add_le _ _).trans (add_le_add hrest hstep)

/-- What is divided in the end is the last sum on the way. -/
theorem sumFrom_mem_partialSums {start sum : Decimal} {xs : List Decimal} (hne : xs ≠ [])
    (h : sumFrom start xs = some sum) : sum ∈ partialSums start xs := by
  induction xs generalizing start with
  | nil => exact absurd rfl hne
  | cons x xs ih =>
    obtain ⟨next, -, hlater, hsums⟩ := exists_next_of_sumFrom h
    rw [hsums]
    cases xs with
    | nil =>
      cases hlater
      exact List.mem_cons_self
    | cons y ys => exact List.mem_cons_of_mem _ (ih (List.cons_ne_nil y ys) hlater)

/-- The sum of some numbers is off by at most half a unit for each of them. -/
theorem abs_sum_sub_total_le {places : Nat} (hplaces : places ≤ 28) {xs : List Decimal}
    {sum : Decimal} (hroom : SumsLeaveRoom places xs) (h : sumFrom .zero xs = some sum) :
    |sum.value - total xs| ≤ xs.length * (1 / (2 * tenTo places)) := by
  cases xs with
  | nil =>
    cases h
    simp [total, value_zero]
  | cons x xs =>
    have hhalf : (0 : ℚ) ≤ 1 / (2 * tenTo places) := by positivity
    rw [sumFrom_zero_cons] at h
    rw [total_cons, List.length_cons, Nat.cast_succ, add_one_mul]
    exact (abs_sumFrom_sub_le hplaces hroom h).trans (le_add_of_nonneg_right hhalf)

/-- The quotient is off by at most half a unit.  One number has no sum that could
leave room, but then nothing is rounded. -/
theorem abs_quotient_sub_le {places : Nat} (hplaces : places ≤ 28) {xs : List Decimal}
    {sum v : Decimal} (hne : xs ≠ []) (hroom : SumsLeaveRoom places xs)
    (hsum : sumFrom .zero xs = some sum)
    (hvalue : rounded? (sum.value / xs.length) = some v.value) :
    |v.value - sum.value / xs.length| ≤ 1 / (2 * tenTo places) := by
  cases xs with
  | nil => exact absurd rfl hne
  | cons x xs =>
    cases xs with
    | nil =>
      rw [List.length_singleton, Nat.cast_one, div_one] at hvalue ⊢
      rw [rounded?_value, Option.some_inj] at hvalue
      rw [hvalue, sub_self, abs_zero]
      positivity
    | cons y ys =>
      rw [sumFrom_zero_cons] at hsum
      have hsumRoom := hroom sum (sumFrom_mem_partialSums (List.cons_ne_nil y ys) hsum)
      have hquotient := abs_le_of_rounded? hvalue (abs_div_count_le _ (Nat.succ_pos _))
      exact abs_sub_le_of_rounded? hvalue hplaces
        ((mul_le_mul_of_nonneg_right hquotient (tenTo_cast_pos places).le).trans_lt hsumRoom)

/-- An average is off by at most one unit in every place that fits beside the
sums. -/
theorem abs_average?_sub_mean_le {places : Nat} (hplaces : places ≤ 28) {xs : List Decimal}
    {v : Decimal} (hne : xs ≠ []) (hroom : SumsLeaveRoom places xs) (h : average? xs = some v) :
    |v.value - mean xs| ≤ 1 / tenTo places := by
  have hcount : (0 : ℚ) < xs.length := Nat.cast_pos.mpr (List.length_pos_of_ne_nil hne)
  obtain ⟨sum, hsum, hvalue⟩ := exists_rounded_of_average? hne h
  have hquotient := abs_quotient_sub_le hplaces hne hroom hsum hvalue
  have haddition : |sum.value / xs.length - mean xs| ≤ 1 / (2 * tenTo places) := by
    rw [mean, ← sub_div, abs_div, Nat.abs_cast, div_le_iff₀ hcount, mul_comm]
    exact abs_sum_sub_total_le hplaces hroom hsum
  calc |v.value - mean xs|
      ≤ |v.value - sum.value / xs.length| + |sum.value / xs.length - mean xs| :=
        abs_sub_le _ _ _
    _ ≤ 1 / (2 * tenTo places) + 1 / (2 * tenTo places) := add_le_add hquotient haddition
    _ = 1 / tenTo places := by
      field_simp
      norm_num

/-- The sums leave room for the places that they have. -/
theorem sumsLeaveRoom_of_le_scale {places : Nat} {xs : List Decimal}
    (h : ∀ sum ∈ laterSums xs, places ≤ sum.scale) : SumsLeaveRoom places xs :=
  fun sum hmem => (sum.abs_value_mul_tenTo_le (h sum hmem)).trans_lt
    (Nat.cast_lt.mpr sum.coefficient_lt)

/-- Without a fraction there is always room. -/
theorem sumsLeaveRoom_zero (xs : List Decimal) : SumsLeaveRoom 0 xs :=
  sumsLeaveRoom_of_le_scale fun sum _ => Nat.zero_le sum.scale

/-! ## Between the smallest and the greatest number -/

theorem total_le {xs : List Decimal} {q : ℚ} (h : ∀ x ∈ xs, x.value ≤ q) :
    total xs ≤ xs.length * q := by
  have hsum := List.sum_le_card_nsmul (xs.map value) q (List.forall_mem_map.mpr h)
  rwa [List.length_map, nsmul_eq_mul] at hsum

theorem le_total {xs : List Decimal} {q : ℚ} (h : ∀ x ∈ xs, q ≤ x.value) :
    xs.length * q ≤ total xs := by
  have hsum := List.card_nsmul_le_sum (xs.map value) q (List.forall_mem_map.mpr h)
  rwa [List.length_map, nsmul_eq_mul] at hsum

theorem mean_le {xs : List Decimal} {q : ℚ} (hne : xs ≠ []) (h : ∀ x ∈ xs, x.value ≤ q) :
    mean xs ≤ q := by
  have hcount : (0 : ℚ) < xs.length := Nat.cast_pos.mpr (List.length_pos_of_ne_nil hne)
  rw [mean, div_le_iff₀ hcount, mul_comm]
  exact total_le h

theorem le_mean {xs : List Decimal} {q : ℚ} (hne : xs ≠ []) (h : ∀ x ∈ xs, q ≤ x.value) :
    q ≤ mean xs := by
  have hcount : (0 : ℚ) < xs.length := Nat.cast_pos.mpr (List.length_pos_of_ne_nil hne)
  rw [mean, le_div_iff₀ hcount, mul_comm]
  exact le_total h

/-- At most `slack` below the smallest and above the greatest of some numbers. -/
def LiesWithin (slack : ℚ) (x : Decimal) (xs : List Decimal) (v : Decimal) : Prop :=
  (minimum x xs).value - slack ≤ v.value ∧ v.value ≤ (maximum x xs).value + slack

/-- Without slack, this is the order that numbers are compared by. -/
theorem liesWithin_zero_iff {x : Decimal} {xs : List Decimal} {v : Decimal} :
    LiesWithin 0 x xs v ↔
      (minimum x xs).atMost v = true ∧ v.atMost (maximum x xs) = true := by
  rw [LiesWithin, sub_zero, add_zero, value_le_iff, value_le_iff]

/-- How far an average of some numbers `ys` may lie outside of the data: not at all
if no sum has to be rounded, never by more than one, and by at most one unit in
each place that fits beside the sums. -/
structure StaysNear (ys : List Decimal) (x : Decimal) (xs : List Decimal) (v : Decimal) : Prop where
  exactly : HasExactSums ys → LiesWithin 0 x xs v
  always : LiesWithin 1 x xs v
  nearly : ∀ places ≤ 28, SumsLeaveRoom places ys → LiesWithin (1 / tenTo places) x xs v

theorem StaysNear.congr {ys xs : List Decimal} {x v w : Decimal} (h : StaysNear ys x xs v)
    (hvalue : v.value = w.value) : StaysNear ys x xs w := by
  have hslack {slack : ℚ} (hwithin : LiesWithin slack x xs v) : LiesWithin slack x xs w := by
    rwa [LiesWithin, ← hvalue]
  exact ⟨fun hexact => hslack (h.exactly hexact), hslack h.always,
    fun places hplaces hroom => hslack (h.nearly places hplaces hroom)⟩

/-- An average of numbers from the data stays near the data: rounding the quotient
does not lead out of it, and the sums are off by little. -/
theorem staysNear_of_average? {ys xs : List Decimal} {x v : Decimal} (hne : ys ≠ [])
    (hsubset : ys ⊆ x :: xs) (h : average? ys = some v) : StaysNear ys x xs v := by
  have hlower (y : Decimal) (hy : y ∈ ys) := (minimum_least x xs).2 y (hsubset hy)
  have hupper (y : Decimal) (hy : y ∈ ys) := (maximum_greatest x xs).2 y (hsubset hy)
  have hnearly (places : Nat) (hplaces : places ≤ 28) (hroom : SumsLeaveRoom places ys) :
      LiesWithin (1 / tenTo places) x xs v := by
    have herror := abs_sub_le_iff.mp (abs_average?_sub_mean_le hplaces hne hroom h)
    have hbelow := le_mean hne hlower
    have habove := mean_le hne hupper
    constructor <;> linarith
  refine ⟨fun hexact => ?_, ?_, hnearly⟩
  · have hmean := rounded?_mean hne hexact h
    rw [LiesWithin, sub_zero, add_zero]
    exact ⟨ge_of_rounded? hmean (le_mean hne hlower), le_of_rounded? hmean (mean_le hne hupper)⟩
  · have hunits := hnearly 0 (Nat.zero_le 28) (sumsLeaveRoom_zero ys)
    rwa [tenTo_zero, Nat.cast_one, div_one] at hunits

/-! ## The median as an average -/

/-- The middle number in ascending order, or the two middle ones. -/
def middles (xs : List Decimal) : List Decimal :=
  ((ascending xs).drop ((xs.length - 1) / 2)).take (2 - xs.length % 2)

theorem middles_subset (xs : List Decimal) : middles xs ⊆ xs := fun _ hmem =>
  (ascending_perm xs).subset (List.mem_of_mem_drop (List.mem_of_mem_take hmem))

theorem middles_of_odd {xs lower upper : List Decimal} {middle : Decimal}
    (hodd : xs.length % 2 = 1) (hsplit : ascending xs = lower ++ middle :: upper)
    (hhalves : lower.length = upper.length) : middles xs = [middle] := by
  have hlength := congrArg List.length hsplit
  rw [length_ascending, List.length_append, List.length_cons] at hlength
  have hdrop : (xs.length - 1) / 2 = lower.length := by omega
  rw [middles, hsplit, hodd, hdrop, List.drop_left]
  rfl

theorem middles_of_even {xs lower upper : List Decimal} {low high : Decimal}
    (heven : xs.length % 2 = 0) (hsplit : ascending xs = lower ++ low :: high :: upper)
    (hhalves : lower.length = upper.length) : middles xs = [low, high] := by
  have hlength := congrArg List.length hsplit
  rw [length_ascending, List.length_append, List.length_cons, List.length_cons] at hlength
  have hdrop : (xs.length - 1) / 2 = lower.length := by omega
  rw [middles, hsplit, heven, hdrop, List.drop_left]
  rfl

theorem middles_ne_nil {xs : List Decimal} (hne : xs ≠ []) : middles xs ≠ [] := by
  rcases Nat.mod_two_eq_zero_or_one xs.length with heven | hodd
  · obtain ⟨lower, low, high, upper, hsplit, hhalves, -⟩ := median?_of_even hne heven
    rw [middles_of_even heven hsplit hhalves]
    exact List.cons_ne_nil _ _
  · obtain ⟨lower, middle, upper, hsplit, hhalves, -⟩ := median?_of_odd hodd
    rw [middles_of_odd hodd hsplit hhalves]
    exact List.cons_ne_nil _ _

/-- The average of one number is that number. -/
theorem map_value_average?_singleton (d : Decimal) :
    (average? [d]).map value = some d.value := by
  have hfits : 1 < twoTo 96 := by decide
  have hquotient := map_value_divideByCount? d Nat.one_pos hfits
  rw [Nat.cast_one, div_one, rounded?_value] at hquotient
  rw [average?_eq_bind, sumFrom_zero_cons]
  exact hquotient

/-- The median is the average of the middle numbers. -/
theorem map_value_median? {xs : List Decimal} (hne : xs ≠ []) :
    (median? xs).map value = (average? (middles xs)).map value := by
  rcases Nat.mod_two_eq_zero_or_one xs.length with heven | hodd
  · obtain ⟨lower, low, high, upper, hsplit, hhalves, hmedian⟩ := median?_of_even hne heven
    rw [hmedian, middles_of_even heven hsplit hhalves, average?_eq_bind, sumFrom_zero_cons,
      sumFrom_cons]
    cases low.add? high <;> rfl
  · obtain ⟨lower, middle, upper, hsplit, hhalves, hmedian⟩ := median?_of_odd hodd
    rw [hmedian, middles_of_odd hodd hsplit hhalves, map_value_average?_singleton]
    rfl

theorem exists_average?_middles {xs : List Decimal} {v : Decimal} (hne : xs ≠ [])
    (h : median? xs = some v) : ∃ w, average? (middles xs) = some w ∧ w.value = v.value := by
  have hvalue := map_value_median? hne
  rw [h, Option.map_some, eq_comm, Option.map_eq_some_iff] at hvalue
  exact hvalue

/-- A single number needs no sum. -/
theorem hasExactSums_singleton (d : Decimal) : HasExactSums [d] := by
  intro count
  cases count with
  | zero => exact isValue_zero
  | succ count => exact ⟨d, by simp [total]⟩

theorem hasExactSums_middles_of_odd {xs : List Decimal} (hodd : xs.length % 2 = 1) :
    HasExactSums (middles xs) := by
  obtain ⟨lower, middle, upper, hsplit, hhalves, -⟩ := median?_of_odd hodd
  rw [middles_of_odd hodd hsplit hhalves]
  exact hasExactSums_singleton middle

theorem orOverflow_eq_ok_iff {result : Option Decimal} {v : Decimal} :
    orOverflow result = .ok v ↔ result = some v := by
  cases result <;> simp [orOverflow]

section Calls

variable {caseSensitive : Bool} {draw x v : Decimal} {xs : List Decimal}

theorem call_avg_eq_ok_iff :
    (functionRegistry caseSensitive draw).call "avg" (x :: xs) = .ok v ↔
      average? (x :: xs) = some v := by
  rw [call_avg, orOverflow_eq_ok_iff]

theorem call_median_eq_ok_iff :
    (functionRegistry caseSensitive draw).call "median" (x :: xs) = .ok v ↔
      median? (x :: xs) = some v := by
  rw [call_median, orOverflow_eq_ok_iff]

end Calls

/-! ## Averages and their data -/

/-- An average stays near its arguments, the median of an odd count lies between
the smallest and the greatest one, and the median of an even count stays as near
as the average of the two middle ones does, which has a single sum. -/
theorem averages_stay_near_data (caseSensitive : Bool) (draw x : Decimal) (xs : List Decimal) :
    let functions := functionRegistry caseSensitive draw
    (∀ v, functions.call "avg" (x :: xs) = .ok v → StaysNear (x :: xs) x xs v) ∧
      ∀ v, functions.call "median" (x :: xs) = .ok v →
        ((x :: xs).length % 2 = 1 → LiesWithin 0 x xs v) ∧
          StaysNear (middles (x :: xs)) x xs v := by
  dsimp only
  have hne := List.cons_ne_nil x xs
  refine ⟨fun v hcall => ?_, fun v hcall => ?_⟩
  · exact staysNear_of_average? hne (List.Subset.refl _) (call_avg_eq_ok_iff.mp hcall)
  · obtain ⟨w, haverage, hvalue⟩ :=
      exists_average?_middles hne (call_median_eq_ok_iff.mp hcall)
    have hnear : StaysNear (middles (x :: xs)) x xs v :=
      (staysNear_of_average? (middles_ne_nil hne) (middles_subset _) haverage).congr hvalue
    exact ⟨fun hodd => hnear.exactly (hasExactSums_middles_of_odd hodd), hnear⟩

/-- A number of 29 digits whose double has one digit too many. -/
def edge : Decimal :=
  ⟨false, 70000000000000000000000000003, 28, by decide, Decimal.greatest_scale_le⟩

/-- Half the double of `edge` as it is rounded. -/
def beyondEdge : Decimal :=
  ⟨false, 70000000000000000000000000005, 28, by decide, Decimal.greatest_scale_le⟩

theorem ascending_edges : ascending [edge, edge] = [edge, edge] :=
  List.perm_replicate.mp (ascending_perm (List.replicate 2 edge))

theorem average?_edges : average? [edge, edge] = some beyondEdge := by decide +kernel

theorem median?_edges : median? [edge, edge] = some beyondEdge := by
  rw [median?, ascending_edges]
  decide +kernel

/-- The sum of two equal numbers may be rounded up, and then their average and
their median are greater than both. -/
theorem averages_exceed_maximum :
    let functions := functionRegistry false .zero
    functions.call "avg" [edge, edge] = .ok beyondEdge ∧
      functions.call "median" [edge, edge] = .ok beyondEdge ∧
      functions.call "max" [edge, edge] = .ok edge ∧ beyondEdge.atMost edge = false := by
  dsimp only
  refine ⟨call_avg_eq_ok_iff.mpr average?_edges, call_median_eq_ok_iff.mpr median?_edges, ?_,
    by decide⟩
  rw [call_max]
  decide

/-- A mean of two short numbers, the mean and the median of two numbers on the
edge, and the median of one of them. -/
theorem edges_stay_near_data :
    let functions := functionRegistry false .zero
    (HasExactSums [shortHalf, .ofInt64 7] ∧
        ∃ v, functions.call "avg" [shortHalf, .ofInt64 7] = .ok v ∧
          LiesWithin 0 shortHalf [.ofInt64 7] v) ∧
      (SumsLeaveRoom 27 [edge, edge] ∧ functions.call "avg" [edge, edge] = .ok beyondEdge ∧
        LiesWithin (1 / tenTo 27) edge [edge] beyondEdge) ∧
      (SumsLeaveRoom 27 (middles [edge, edge]) ∧
        functions.call "median" [edge, edge] = .ok beyondEdge ∧
          LiesWithin (1 / tenTo 27) edge [edge] beyondEdge) ∧
      [edge].length % 2 = 1 ∧ functions.call "median" [edge] = .ok edge ∧
        LiesWithin 0 edge [] edge := by
  have hexact : HasExactSums [shortHalf, .ofInt64 7] :=
    hasExactSums_of_units (show 1 ≤ 28 by decide) (by decide) (by decide)
  have hroom : SumsLeaveRoom 27 [edge, edge] := sumsLeaveRoom_of_le_scale (by decide +kernel)
  have hmiddles : middles [edge, edge] = [edge, edge] := by
    rw [middles, ascending_edges]
    rfl
  have hmiddlesRoom : SumsLeaveRoom 27 (middles [edge, edge]) := by rwa [hmiddles]
  have hmean : average? [shortHalf, .ofInt64 7] =
      some ⟨false, 4750, 3, by decide, by decide⟩ := by decide +kernel
  have hsingle : median? [edge] = some edge := by
    rw [median?, ascending, List.mergeSort_singleton]
    rfl
  refine ⟨⟨hexact, _, call_avg_eq_ok_iff.mpr hmean, ?_⟩,
    ⟨hroom, call_avg_eq_ok_iff.mpr average?_edges, ?_⟩,
    ⟨hmiddlesRoom, call_median_eq_ok_iff.mpr median?_edges, ?_⟩,
    rfl, call_median_eq_ok_iff.mpr hsingle, ?_⟩
  · exact ((averages_stay_near_data false .zero shortHalf [.ofInt64 7]).1 _
      (call_avg_eq_ok_iff.mpr hmean)).exactly hexact
  · exact ((averages_stay_near_data false .zero edge [edge]).1 _
      (call_avg_eq_ok_iff.mpr average?_edges)).nearly 27 (by decide) hroom
  · exact ((averages_stay_near_data false .zero edge [edge]).2 _
      (call_median_eq_ok_iff.mpr median?_edges)).2.nearly 27 (by decide) hmiddlesRoom
  · exact ((averages_stay_near_data false .zero edge []).2 _
      (call_median_eq_ok_iff.mpr hsingle)).1 rfl

end Builtin

end FormulaEngine
