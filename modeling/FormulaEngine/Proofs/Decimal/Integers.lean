import FormulaEngine.Decimal.Arithmetic
import FormulaEngine.Proofs.Decimal.Text

/-!
# Decimals that are integers

A decimal of scale zero is an integer of at most 96 bits.  Among such
decimals sums, differences and products are exact, and they exist exactly if
the result fits: at scale zero there is no place that could be rounded away.

* `IsInteger` is the relation of a decimal to its integer, and `Fits` is the
  range.  Zero has two decimals, with and without a sign.
* `IsChecked` is what a checked operation gives whose exact result is known.
  `isChecked_add?`, `isChecked_subtract?` and `isChecked_multiply?` are the
  three operations.
* `isTruthy_of_isInteger`, `lessThan_of_isInteger`, `atMost_of_isInteger` and
  `equals_of_isInteger` read truth and order off the integers.
-/

namespace FormulaEngine

namespace Decimal

/-! ## The range -/

/-- The integers that decimals can hold. -/
def Fits (n : Int) : Prop := n.natAbs < twoTo 96

instance (n : Int) : Decidable (Fits n) := inferInstanceAs (Decidable (n.natAbs < twoTo 96))

theorem fits_neg_iff {n : Int} : Fits (-n) ↔ Fits n := by rw [Fits, Fits, Int.natAbs_neg]

/-- The decimal is the integer `n`, without places for a fraction. -/
structure IsInteger (d : Decimal) (n : Int) : Prop where
  scale : d.scale = 0
  numerator : d.numerator = n

theorem IsInteger.fits {d : Decimal} {n : Int} (h : d.IsInteger n) : Fits n := by
  rw [Fits, ← h.numerator, natAbs_numerator]
  exact d.coefficient_lt

theorem isInteger_zero : zero.IsInteger 0 := ⟨rfl, rfl⟩

theorem isInteger_one : one.IsInteger 1 := ⟨rfl, rfl⟩

/-- Truth values are the integers one and zero. -/
theorem isInteger_ofBool (p : Prop) [Decidable p] :
    (ofBool (decide p)).IsInteger (if p then 1 else 0) := by
  by_cases h : p
  · rw [decide_eq_true h, if_pos h]
    exact isInteger_one
  · rw [decide_eq_false h, if_neg h]
    exact isInteger_zero

theorem isInteger_ofInt64 (n : Int64) : (ofInt64 n).IsInteger n.toInt := by
  refine ⟨rfl, ?_⟩
  by_cases h : n.toInt < 0
  · simp only [ofInt64, numerator, h, decide_true, if_true]
    omega
  · simp only [ofInt64, numerator, h, decide_false, Bool.false_eq_true, if_false]
    omega

/-- The other sign is the negative, also of a zero. -/
theorem numerator_negate (d : Decimal) : d.negate.numerator = -d.numerator := by
  rw [numerator, numerator, negate]
  cases d.negative <;> simp

theorem IsInteger.negate {d : Decimal} {n : Int} (h : d.IsInteger n) :
    d.negate.IsInteger (-n) :=
  ⟨h.scale, by rw [numerator_negate, h.numerator]⟩

/-! ## Truth and order -/

section Comparison

variable {a b : Decimal} {m n : Int} (ha : a.IsInteger m) (hb : b.IsInteger n)

include ha

theorem isZero_of_isInteger : a.isZero = decide (m = 0) := by
  rw [isZero, ← natAbs_numerator, ha.numerator, beq_eq_decide, decide_eq_decide,
    Int.natAbs_eq_zero]

theorem isTruthy_of_isInteger : a.isTruthy = decide (m ≠ 0) := by
  rw [isTruthy, isZero_of_isInteger ha, decide_not]

include hb

/-- Integers are compared as they stand. -/
theorem aligned_of_isInteger : aligned a b = (m, n) := by
  rw [aligned, ha.scale, hb.scale, ha.numerator, hb.numerator, tenTo_zero]
  simp only [Int.natCast_one, Int.mul_one]

theorem lessThan_of_isInteger : a.lessThan b = decide (m < n) := by
  rw [lessThan, aligned_of_isInteger ha hb]

theorem atMost_of_isInteger : a.atMost b = decide (m ≤ n) := by
  rw [atMost, aligned_of_isInteger ha hb]

theorem equals_of_isInteger : a.equals b = decide (m = n) := by
  rw [equals, aligned_of_isInteger ha hb]

end Comparison

/-! ## Checked operations -/

/-- What an operation gives whose exact result is the integer `n`: that
integer if it fits, and nothing if it does not. -/
inductive IsChecked (n : Int) : Option Decimal → Prop where
  | exact {d : Decimal} (h : d.IsInteger n) : IsChecked n (some d)
  | exceeds (h : ¬Fits n) : IsChecked n none

/-- An exact number without places is not rounded. -/
theorem ofExact?_zero (n : Int) :
    ofExact? n 0 = ofParts? (decide (n < 0)) n.natAbs 0 := by
  have hscale : Nat.min 0 28 = 0 := rfl
  rw [ofExact?, hscale, nearest?, tenTo_zero, roundHalfEven_one]

theorem isChecked_ofExact? (n : Int) : IsChecked n (ofExact? n 0) := by
  rw [ofExact?_zero, ofParts?]
  split
  · refine .exact ⟨rfl, ?_⟩
    -- The sign of a zero is dropped, which is no change to its value.
    by_cases hnegative : n < 0
    · have hne : n.natAbs ≠ 0 := by omega
      simp only [numerator, hnegative, decide_true, bne_iff_ne.mpr hne, Bool.and_self, if_true]
      omega
    · simp only [numerator, hnegative, decide_false, Bool.false_and, Bool.false_eq_true,
        if_false]
      omega
  · rename_i hparts
    exact .exceeds fun hfits => hparts ⟨hfits, integer_scale_le⟩

section Operations

variable {a b : Decimal} {m n : Int} (ha : a.IsInteger m) (hb : b.IsInteger n)

include ha

/-- Bringing an integer to the scale of integers changes nothing. -/
theorem rescaled_of_isInteger : a.numerator * tenTo (0 - a.scale) = m := by
  rw [ha.scale, Nat.sub_zero, tenTo_zero, Int.natCast_one, Int.mul_one, ha.numerator]

include hb

theorem max_scale_of_isInteger : Nat.max a.scale b.scale = 0 := by
  rw [ha.scale, hb.scale]
  rfl

theorem isChecked_add? : IsChecked (m + n) (a.add? b) := by
  rw [add?, isZero_of_isInteger ha, isZero_of_isInteger hb, max_scale_of_isInteger ha hb]
  dsimp only
  rw [rescaled_of_isInteger ha, rescaled_of_isInteger hb]
  split
  · rename_i hm
    rw [of_decide_eq_true hm, Int.zero_add]
    exact .exact hb
  · split
    · rename_i hn
      rw [of_decide_eq_true hn, Int.add_zero]
      exact .exact ha
    · exact isChecked_ofExact? (m + n)

theorem isChecked_subtract? : IsChecked (m - n) (a.subtract? b) := by
  rw [subtract?, isZero_of_isInteger ha, isZero_of_isInteger hb, max_scale_of_isInteger ha hb]
  dsimp only
  rw [rescaled_of_isInteger ha, rescaled_of_isInteger hb]
  split
  · rename_i hm
    rw [of_decide_eq_true hm, Int.zero_sub]
    split
    · rename_i hn
      -- The second zero stands for both itself and its negative.
      have hzero : -n = n := by rw [of_decide_eq_true hn, Int.neg_zero]
      rw [hzero]
      exact .exact hb
    · exact .exact hb.negate
  · split
    · rename_i hn
      rw [of_decide_eq_true hn, Int.sub_zero]
      exact .exact ha
    · exact isChecked_ofExact? (m - n)

/-- A product of integers does not vanish by rounding. -/
theorem isChecked_multiply? : IsChecked (m * n) (a.multiply? b) := by
  rw [multiply?, isZero_of_isInteger ha, isZero_of_isInteger hb, ← Bool.decide_or,
    ha.numerator, hb.numerator, ha.scale, hb.scale, Nat.add_zero]
  split
  · rename_i hzero
    rw [Int.mul_eq_zero.mpr (of_decide_eq_true hzero)]
    exact .exact isInteger_zero
  · rename_i hnonzero
    have hproduct : ¬m * n = 0 :=
      fun h => hnonzero (decide_eq_true (Int.mul_eq_zero.mp h))
    have hchecked := isChecked_ofExact? (m * n)
    generalize ofExact? (m * n) 0 = product at hchecked ⊢
    cases hchecked with
    | exceeds hexceeds => exact .exceeds hexceeds
    | exact hinteger =>
      dsimp only
      rw [isZero_of_isInteger hinteger, decide_eq_false hproduct]
      exact .exact hinteger

end Operations

end Decimal

end FormulaEngine
