import FormulaEngine.Builtin
import FormulaEngine.Proofs.Decimal.Operations

/-!
# Greatest, smallest and middle numbers

What `max`, `min` and `median` give is stated by the order of values alone,
without the order in which the arguments are looked at.

* `foldl_choice` is the induction behind `max` and `min`: a fold that always keeps
  one of two numbers ends in one that stands above all.
* `median?_of_odd` and `median?_of_even` cut the sorted arguments in the middle.
  Everything else about the median follows from these two.
-/

namespace FormulaEngine

/-- What a registered function gives for some arguments. -/
def Functions.call (functions : Functions) (name : String) (arguments : List Decimal) :
    Except EvaluationError Decimal :=
  match functions.find? name with
  | none => .error (.functionNotDefined name)
  | some entry => entry.content.run arguments

namespace Builtin

/-! ## Calls -/

section Calls

variable (caseSensitive : Bool) (draw x : Decimal) (xs : List Decimal)

theorem call_max :
    (functionRegistry caseSensitive draw).call "max" (x :: xs) = .ok (maximum x xs) := by
  cases caseSensitive <;> rfl

theorem call_min :
    (functionRegistry caseSensitive draw).call "min" (x :: xs) = .ok (minimum x xs) := by
  cases caseSensitive <;> rfl

theorem call_avg :
    (functionRegistry caseSensitive draw).call "avg" (x :: xs) =
      orOverflow (average? (x :: xs)) := by
  cases caseSensitive <;> rfl

theorem call_median :
    (functionRegistry caseSensitive draw).call "median" (x :: xs) =
      orOverflow (median? (x :: xs)) := by
  cases caseSensitive <;> rfl

theorem call_aggregate_nil {name : String} (h : name ∈ ["max", "min", "avg", "median"]) :
    (functionRegistry caseSensitive draw).call name [] = .error (.emptyArguments name) := by
  simp only [List.mem_cons, List.not_mem_nil, or_false] at h
  rcases h with rfl | rfl | rfl | rfl <;> cases caseSensitive <;> rfl

end Calls

/-! ## The greatest and the smallest number -/

/-- A fold that keeps one of two numbers each time, one that is related to both,
ends in one of the numbers that all are related to. -/
theorem foldl_choice {choose : Decimal → Decimal → Decimal} {R : Decimal → Decimal → Prop}
    (hrefl : ∀ a, R a a) (htrans : ∀ a b c, R a b → R b c → R a c)
    (hchoice : ∀ a b, choose a b = a ∨ choose a b = b)
    (hleft : ∀ a b, R a (choose a b)) (hright : ∀ a b, R b (choose a b))
    (x : Decimal) (xs : List Decimal) :
    xs.foldl choose x ∈ x :: xs ∧ ∀ y ∈ x :: xs, R y (xs.foldl choose x) := by
  induction xs generalizing x with
  | nil => simp [hrefl]
  | cons z zs ih =>
    obtain ⟨hmem, habove⟩ := ih (choose x z)
    rw [List.foldl_cons]
    rw [List.forall_mem_cons] at habove
    refine ⟨?_, ?_⟩
    · rcases List.mem_cons.mp hmem with hhere | hlater
      · rw [hhere]
        rcases hchoice x z with hx | hz <;> simp [*]
      · exact List.mem_cons_of_mem x (List.mem_cons_of_mem z hlater)
    · rw [List.forall_mem_cons, List.forall_mem_cons]
      exact ⟨htrans _ _ _ (hleft x z) habove.1, htrans _ _ _ (hright x z) habove.1, habove.2⟩

/-- The greatest number is one of the numbers, and none is greater. -/
theorem maximum_greatest (x : Decimal) (xs : List Decimal) :
    maximum x xs ∈ x :: xs ∧ ∀ y ∈ x :: xs, y.value ≤ (maximum x xs).value := by
  refine foldl_choice (R := fun a b => a.value ≤ b.value) (fun _ => le_rfl)
    (fun _ _ _ => le_trans) ?_ ?_ ?_ x xs <;> intro a b <;> rw [Decimal.max] <;> split_ifs with hless
  · exact .inl rfl
  · exact .inr rfl
  · exact le_rfl
  · exact Decimal.lessThan_eq_false_iff.mp (Bool.not_eq_true _ ▸ hless)
  · exact (Decimal.value_lt_iff.mpr hless).le
  · exact le_rfl

/-- The smallest number is one of the numbers, and none is smaller. -/
theorem minimum_least (x : Decimal) (xs : List Decimal) :
    minimum x xs ∈ x :: xs ∧ ∀ y ∈ x :: xs, (minimum x xs).value ≤ y.value := by
  refine foldl_choice (R := fun a b => b.value ≤ a.value) (fun _ => le_rfl)
    (fun _ _ _ hab hbc => le_trans hbc hab) ?_ ?_ ?_ x xs <;> intro a b <;>
    rw [Decimal.min] <;> split_ifs with hless
  · exact .inr rfl
  · exact .inl rfl
  · exact (Decimal.value_lt_iff.mpr hless).le
  · exact le_rfl
  · exact le_rfl
  · exact Decimal.lessThan_eq_false_iff.mp (Bool.not_eq_true _ ▸ hless)

/-! ## Sorted numbers -/

theorem ascending_perm (xs : List Decimal) : (ascending xs).Perm xs :=
  List.mergeSort_perm xs _

theorem length_ascending (xs : List Decimal) : (ascending xs).length = xs.length :=
  (ascending_perm xs).length_eq

theorem ascending_pairwise (xs : List Decimal) :
    (ascending xs).Pairwise fun a b => a.value ≤ b.value := by
  have hsorted : (ascending xs).Pairwise fun a b => a.atMost b = true := by
    refine List.pairwise_mergeSort (fun a b c hab hbc => ?_) (fun a b => ?_) xs
    · rw [← Decimal.value_le_iff] at *
      exact hab.trans hbc
    · rw [Bool.or_eq_true, ← Decimal.value_le_iff, ← Decimal.value_le_iff]
      exact le_total _ _
  exact hsorted.imp Decimal.value_le_iff.mpr

/-! ## The middle -/

/-- The middle number of an odd count stands between equal halves. -/
theorem median?_of_odd {xs : List Decimal} (hodd : xs.length % 2 = 1) :
    ∃ lower middle upper, ascending xs = lower ++ middle :: upper ∧
      lower.length = upper.length ∧ median? xs = some middle := by
  have hlength := length_ascending xs
  have hmiddle : xs.length / 2 < (ascending xs).length := by omega
  refine ⟨(ascending xs).take (xs.length / 2), (ascending xs)[xs.length / 2],
    (ascending xs).drop (xs.length / 2 + 1), ?_, ?_, ?_⟩
  · rw [← List.drop_eq_getElem_cons hmiddle, List.take_append_drop]
  · rw [List.length_take, List.length_drop]
    omega
  · rw [median?, hlength, if_pos hodd, List.getElem?_eq_getElem hmiddle]

/-- The two middle numbers of an even count stand between equal halves. -/
theorem median?_of_even {xs : List Decimal} (hne : xs ≠ []) (heven : xs.length % 2 = 0) :
    ∃ lower low high upper, ascending xs = lower ++ low :: high :: upper ∧
      lower.length = upper.length ∧
      median? xs = (low.add? high).bind (divideByCount? · 2) := by
  have hlength := length_ascending xs
  have hpos : 0 < xs.length := List.length_pos_of_ne_nil hne
  have hlow : xs.length / 2 - 1 < (ascending xs).length := by omega
  have hhigh : xs.length / 2 < (ascending xs).length := by omega
  have hnext : xs.length / 2 - 1 + 1 = xs.length / 2 := by omega
  refine ⟨(ascending xs).take (xs.length / 2 - 1), (ascending xs)[xs.length / 2 - 1],
    (ascending xs)[xs.length / 2], (ascending xs).drop (xs.length / 2 + 1), ?_, ?_, ?_⟩
  · have hrest : (ascending xs)[xs.length / 2] :: (ascending xs).drop (xs.length / 2 + 1) =
        (ascending xs).drop (xs.length / 2 - 1 + 1) := by
      rw [hnext, ← List.drop_eq_getElem_cons hhigh]
    rw [hrest, ← List.drop_eq_getElem_cons hlow, List.take_append_drop]
  · rw [List.length_take, List.length_drop]
    omega
  · rw [median?, hlength, if_neg (by omega), List.getElem?_eq_getElem hlow,
      List.getElem?_eq_getElem hhigh]
    dsimp only
    generalize ((ascending xs)[xs.length / 2 - 1]).add? (ascending xs)[xs.length / 2] = sum
    cases sum <;> rfl

/-! ## Division by a count -/

theorem map_value_divideByCount? (sum : Decimal) {count : Nat} (hpos : 0 < count)
    (hfits : count < twoTo 96) :
    (divideByCount? sum count).map Decimal.value = Decimal.rounded? (sum.value / count) := by
  obtain ⟨divisor, hdivisor⟩ : ∃ divisor, Decimal.ofParts? false count 0 = some divisor :=
    ⟨_, dif_pos ⟨hfits, Nat.zero_le 28⟩⟩
  have hvalue : divisor.value = count := by
    rw [Decimal.value_of_ofParts? hdivisor, if_neg Bool.false_ne_true, tenTo_zero, Nat.cast_one,
      div_one, one_mul]
  have hnonzero : divisor.value ≠ 0 := by
    rw [hvalue]
    exact Nat.cast_ne_zero.mpr hpos.ne'
  rw [divideByCount?, Decimal.ofNat?, hdivisor]
  dsimp only
  rw [Decimal.map_value_divide? sum hnonzero, hvalue]

theorem abs_div_count_le (q : ℚ) {count : Nat} (hpos : 0 < count) : |q / count| ≤ |q| := by
  rw [abs_div, Nat.abs_cast]
  exact div_le_self (abs_nonneg _) (by exact_mod_cast hpos)

/-- Division by a count brings a number nearer to zero, so it has a result. -/
theorem exists_divideByCount? (sum : Decimal) {count : Nat} (hpos : 0 < count)
    (hfits : count < twoTo 96) : ∃ quotient, divideByCount? sum count = some quotient := by
  obtain ⟨v, hv⟩ := Decimal.exists_rounded? (abs_div_count_le sum.value hpos)
  rw [← map_value_divideByCount? sum hpos hfits, Option.map_eq_some_iff] at hv
  obtain ⟨quotient, hquotient, -⟩ := hv
  exact ⟨quotient, hquotient⟩

/-! ## Order statistics -/

/-- In a sorted order, only the numbers in front can be smaller than one of them. -/
theorem countP_lessThan_le {lower upper : List Decimal} {m : Decimal}
    (h : (lower ++ m :: upper).Pairwise fun a b => a.value ≤ b.value) :
    (lower ++ m :: upper).countP (fun y => y.lessThan m) ≤ lower.length := by
  have habove := (List.pairwise_cons.mp (List.pairwise_append.mp h).2.1).1
  have hupper : (m :: upper).countP (fun y => y.lessThan m) = 0 := by
    rw [List.countP_eq_zero, List.forall_mem_cons]
    simp only [Bool.not_eq_true, Decimal.lessThan_eq_false_iff]
    exact ⟨le_rfl, habove⟩
  rw [List.countP_append, hupper, Nat.add_zero]
  exact List.countP_le_length

/-- In a sorted order, only the numbers behind can be greater than one of them. -/
theorem countP_greater_le {lower upper : List Decimal} {m : Decimal}
    (h : (lower ++ m :: upper).Pairwise fun a b => a.value ≤ b.value) :
    (lower ++ m :: upper).countP (fun y => m.lessThan y) ≤ upper.length := by
  have hbelow := (List.pairwise_append.mp h).2.2
  have hlower : lower.countP (fun y => m.lessThan y) = 0 := by
    rw [List.countP_eq_zero]
    simp only [Bool.not_eq_true, Decimal.lessThan_eq_false_iff]
    exact fun y hy => hbelow y hy m List.mem_cons_self
  have hself : m.lessThan m = false := Decimal.lessThan_eq_false_iff.mpr le_rfl
  rw [List.countP_append, hlower, Nat.zero_add, List.countP_cons, hself]
  exact List.countP_le_length

/-- The median of an odd count is one of the numbers, with at most half of them on
either side. -/
theorem exists_median?_of_odd {xs : List Decimal} (hodd : xs.length % 2 = 1) :
    ∃ m ∈ xs, median? xs = some m ∧
      2 * xs.countP (fun y => y.lessThan m) ≤ xs.length ∧
      2 * xs.countP (fun y => m.lessThan y) ≤ xs.length := by
  obtain ⟨lower, middle, upper, hsplit, hhalves, hmedian⟩ := median?_of_odd hodd
  have hperm := ascending_perm xs
  have hsorted := ascending_pairwise xs
  rw [hsplit] at hperm hsorted
  have hsmaller := countP_lessThan_le hsorted
  have hgreater := countP_greater_le hsorted
  have hlength : lower.length + (upper.length + 1) = xs.length := by
    simpa using hperm.length_eq
  rw [hperm.countP_eq] at hsmaller hgreater
  exact ⟨middle, hperm.subset (by simp), hmedian, by omega, by omega⟩

/-- The median of an even count is half the sum of the two numbers in the middle,
and only that sum can be out of range. -/
theorem exists_median?_of_even {xs : List Decimal} (hne : xs ≠ []) (heven : xs.length % 2 = 0) :
    ∃ lower low high upper, ascending xs = lower ++ low :: high :: upper ∧
      lower.length = upper.length ∧
      (low.add? high = none ∧ median? xs = none ∨
        ∃ sum half, low.add? high = some sum ∧ sum.divide? (.ofInt64 2) = some half ∧
          median? xs = some half) := by
  obtain ⟨lower, low, high, upper, hsplit, hhalves, hmedian⟩ := median?_of_even hne heven
  refine ⟨lower, low, high, upper, hsplit, hhalves, ?_⟩
  rw [hmedian]
  cases low.add? high with
  | none => exact .inl ⟨rfl, rfl⟩
  | some sum =>
    obtain ⟨half, hhalf⟩ := exists_divideByCount? sum Nat.two_pos (by decide)
    exact .inr ⟨sum, half, rfl, hhalf, hhalf⟩

/-- The greatest and the smallest argument are arguments that none exceeds or
undercuts; the median of an odd count is an argument with at most half of the
others on either side; the median of an even count is half the checked sum of
the two arguments that stand in the middle of a sorted order, or there is no
result because the sum overflows. -/
theorem order_statistics (caseSensitive : Bool) (draw x : Decimal) (xs : List Decimal) :
    let functions := functionRegistry caseSensitive draw
    (∃ m ∈ x :: xs, functions.call "max" (x :: xs) = .ok m ∧
        ∀ y ∈ x :: xs, m.lessThan y = false) ∧
      (∃ m ∈ x :: xs, functions.call "min" (x :: xs) = .ok m ∧
        ∀ y ∈ x :: xs, y.lessThan m = false) ∧
      ((x :: xs).length % 2 = 1 → ∃ m ∈ x :: xs, functions.call "median" (x :: xs) = .ok m ∧
        2 * (x :: xs).countP (fun y => y.lessThan m) ≤ (x :: xs).length ∧
        2 * (x :: xs).countP (fun y => m.lessThan y) ≤ (x :: xs).length) ∧
      ((x :: xs).length % 2 = 0 → ∃ lower low high upper,
        (lower ++ low :: high :: upper).Perm (x :: xs) ∧
        (lower ++ low :: high :: upper).Pairwise (fun a b => a.atMost b = true) ∧
        lower.length = upper.length ∧
        (low.add? high = none ∧ functions.call "median" (x :: xs) = .error .overflow ∨
          ∃ sum half, low.add? high = some sum ∧ sum.divide? (.ofInt64 2) = some half ∧
            functions.call "median" (x :: xs) = .ok half)) := by
  dsimp only
  refine ⟨⟨maximum x xs, ?_⟩, ⟨minimum x xs, ?_⟩, fun hodd => ?_, fun heven => ?_⟩
  · obtain ⟨hmem, habove⟩ := maximum_greatest x xs
    exact ⟨hmem, call_max .., fun y hy => Decimal.lessThan_eq_false_iff.mpr (habove y hy)⟩
  · obtain ⟨hmem, hbelow⟩ := minimum_least x xs
    exact ⟨hmem, call_min .., fun y hy => Decimal.lessThan_eq_false_iff.mpr (hbelow y hy)⟩
  · obtain ⟨m, hmem, hmedian, hcounts⟩ := exists_median?_of_odd hodd
    refine ⟨m, hmem, ?_, hcounts⟩
    rw [call_median, hmedian]
    rfl
  · obtain ⟨lower, low, high, upper, hsplit, hhalves, hmedian⟩ :=
      exists_median?_of_even (List.cons_ne_nil x xs) heven
    refine ⟨lower, low, high, upper, hsplit ▸ ascending_perm _,
      (hsplit ▸ ascending_pairwise _).imp Decimal.value_le_iff.mp, hhalves, ?_⟩
    rw [call_median]
    obtain ⟨hsum, hnone⟩ | ⟨sum, half, hsum, hhalf, hsome⟩ := hmedian
    · exact .inl ⟨hsum, congrArg orOverflow hnone⟩
    · exact .inr ⟨sum, half, hsum, hhalf, congrArg orOverflow hsome⟩

theorem first_place_le : 1 ≤ 28 := by decide

theorem second_place_le : 2 ≤ 28 := by decide

/-- Two and a half, with one place and with two. -/
def shortHalf : Decimal := ⟨false, 25, 1, by decide, first_place_le⟩

@[inherit_doc shortHalf]
def longHalf : Decimal := ⟨false, 250, 2, by decide, second_place_le⟩

theorem ascending_halves :
    ascending [longHalf, .ofInt64 7, shortHalf] = [longHalf, shortHalf, .ofInt64 7] := by
  have hfirst : longHalf.atMost (.ofInt64 7) = true := by decide
  have hlast : (Decimal.ofInt64 7).atMost shortHalf = false := by decide
  have hhalves : longHalf.atMost shortHalf = true := by decide
  simp [ascending, List.mergeSort, hfirst, hlast, hhalves]

/-- The middle one of three numbers, two of them equal, and the middle of two
equal ones. -/
theorem order_statistics_of_equal_numbers :
    let functions := functionRegistry false .zero
    [longHalf, .ofInt64 7, shortHalf].length % 2 = 1 ∧
      (functions.call "median" [longHalf, .ofInt64 7, shortHalf] = .ok shortHalf ∧
        2 * [longHalf, .ofInt64 7, shortHalf].countP (fun y => y.lessThan shortHalf) ≤ 3 ∧
        2 * [longHalf, .ofInt64 7, shortHalf].countP (fun y => shortHalf.lessThan y) ≤ 3) ∧
      [longHalf, shortHalf].length % 2 = 0 ∧
      ∃ lower low high upper, (lower ++ low :: high :: upper).Perm [longHalf, shortHalf] ∧
        (lower ++ low :: high :: upper).Pairwise (fun a b => a.atMost b = true) ∧
        lower.length = upper.length ∧
        (low.add? high = none ∧
            functions.call "median" [longHalf, shortHalf] = .error .overflow ∨
          ∃ sum half, low.add? high = some sum ∧ sum.divide? (.ofInt64 2) = some half ∧
            functions.call "median" [longHalf, shortHalf] = .ok half) := by
  have hmiddle : median? [longHalf, .ofInt64 7, shortHalf] = some shortHalf := by
    rw [median?, ascending_halves]
    rfl
  have hmedian : (functionRegistry false .zero).call "median"
      [longHalf, .ofInt64 7, shortHalf] = .ok shortHalf := by
    rw [call_median, hmiddle]
    rfl
  have hodd := (order_statistics false .zero longHalf [.ofInt64 7, shortHalf]).2.2.1 rfl
  have heven := (order_statistics false .zero longHalf [shortHalf]).2.2.2 rfl
  obtain ⟨m, -, hcall, hcounts⟩ := hodd
  obtain rfl : shortHalf = m := Except.ok.inj (hmedian.symm.trans hcall)
  exact ⟨rfl, ⟨hmedian, hcounts⟩, rfl, heven⟩

end Builtin

end FormulaEngine
