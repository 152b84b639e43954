import FormulaEngine.Decimal.Quotient
import FormulaEngine.Proofs.Decimal.Nearest
import Mathlib.Data.Nat.Cast.Field

/-!
# Sums and quotients are rounded correctly

The value of a sum or quotient is the correctly rounded value of the exact one
(`map_value_add?`, `map_value_divide?`).  So it depends on the values of the
operands only, not on their forms, and what is proved of `rounded?` holds of both.
-/

namespace FormulaEngine

namespace Decimal

/-! ## Sums -/

theorem map_value_ofExact? (n : Int) {scale : Nat} (h : scale ≤ 28) :
    (ofExact? n scale).map value = rounded? (n / tenTo scale) := by
  have hunit := tenTo_cast_pos scale
  have hmin : Nat.min scale 28 = scale := Nat.min_eq_left h
  have hsign : decide (n < 0) = decide ((n : ℚ) / tenTo scale < 0) := by
    rw [decide_eq_decide, div_lt_iff₀ hunit, zero_mul, Int.cast_lt_zero]
  have hmagnitude : |(n : ℚ) / tenTo scale| = n.natAbs / tenTo scale := by
    rw [abs_div, abs_of_pos hunit, Nat.cast_natAbs, Int.cast_abs]
  rw [ofExact?, hmin, map_value_nearest?_of_dvd _ (tenTo_pos scale) h (Nat.dvd_mul_left _ _),
    hsign, map_value_nearest? (tenTo_pos scale) hmagnitude]

theorem map_value_add? (a b : Decimal) :
    (a.add? b).map value = rounded? (a.value + b.value) := by
  rw [add?]
  split_ifs with ha hb
  · rw [isZero_iff_value.mp ha, zero_add, rounded?_value, Option.map_some]
  · rw [isZero_iff_value.mp hb, add_zero, rounded?_value, Option.map_some]
  · have hscale : Nat.max a.scale b.scale ≤ 28 := Nat.max_le.mpr ⟨a.scale_le, b.scale_le⟩
    have haUnits := value_eq_units (d := a) (Nat.le_max_left a.scale b.scale)
    have hbUnits := value_eq_units (d := b) (Nat.le_max_right a.scale b.scale)
    rw [units] at haUnits hbUnits
    rw [map_value_ofExact? _ hscale, Int.cast_add, add_div, haUnits, hbUnits]

/-- A sum that a decimal can hold is exact. -/
theorem exists_add?_of_isValue {a b : Decimal} (h : IsValue (a.value + b.value)) :
    ∃ sum, a.add? b = some sum ∧ sum.value = a.value + b.value := by
  obtain ⟨d, hd⟩ := h
  have hadd := map_value_add? a b
  rw [← hd, rounded?_value, hd] at hadd
  exact Option.map_eq_some_iff.mp hadd

/-! ## Quotients -/

theorem value_dropTrailing (d : Decimal) (zeros : Nat) :
    (d.dropTrailing zeros).value = d.value := by
  have hsign : (d.dropTrailing zeros).negative = d.negative := by
    unfold dropTrailing
    split <;> rfl
  have hunits : ((d.dropTrailing zeros).coefficient : Int) * tenTo d.scale =
      d.coefficient * tenTo (d.dropTrailing zeros).scale := by
    exact_mod_cast d.dropTrailing_coefficient zeros
  rw [value_eq_iff, equals_iff, numerator, numerator, hsign]
  split
  · rw [Int.neg_mul, Int.neg_mul, hunits]
  · exact hunits

theorem value_dropGroups (d : Decimal) : d.dropGroups.value = d.value := by
  have height : ∀ d : Decimal, d.dropEight.value = d.value := by
    intro d
    unfold dropEight
    split
    · exact value_dropTrailing d 8
    · rfl
  simp only [dropGroups, value_dropTrailing, height]

/-- Parts that make up the exact number are the rounded one. -/
theorem map_value_ofParts? {q : ℚ} {coefficient scale : Nat} (hscale : scale ≤ 28)
    (hq : |q| = coefficient / tenTo scale) (hfits : scale = 0 ∨ coefficient < twoTo 96) :
    (ofParts? (decide (q < 0)) coefficient scale).map value = rounded? q := by
  cases hparts : ofParts? (decide (q < 0)) coefficient scale with
  | some d =>
    have hvalue : d.value = q := by
      rw [value_of_ofParts? hparts, ← hq]
      by_cases hsign : q < 0
      · rw [decide_eq_true hsign, if_pos rfl, abs_of_neg hsign, neg_one_mul, neg_neg]
      · rw [decide_eq_false hsign, if_neg Bool.false_ne_true, abs_of_nonneg (not_lt.mp hsign),
          one_mul]
    rw [← hvalue, rounded?_value, Option.map_some]
  | none =>
    have hexceeds := le_of_ofParts?_eq_none hscale hparts
    obtain rfl : scale = 0 := hfits.resolve_right (Nat.not_lt.mpr hexceeds)
    have hlarge : (twoTo 96 : ℚ) ≤ |q| := by
      rw [hq, tenTo_zero, Nat.cast_one, div_one]
      exact_mod_cast hexceeds
    rw [rounded?_eq_none hlarge, Option.map_none]

/-- The form of a quotient does not show in its value. -/
theorem map_value_quotient? {a b : Decimal} {q : ℚ} (hb : b.coefficient ≠ 0)
    (hq : |q| = (a.coefficient * tenTo b.scale : Nat) / (b.coefficient * tenTo a.scale : Nat)) :
    (quotient? (decide (q < 0)) a b).map value = rounded? q := by
  have hb' : (b.coefficient : ℚ) ≠ 0 := Nat.cast_ne_zero.mpr hb
  have haUnit := (tenTo_cast_pos a.scale).ne'
  have hbUnit := (tenTo_cast_pos b.scale).ne'
  rw [quotient?]
  split_ifs with hdivides hscale
  · -- The coefficients divide, and the difference of the scales is left.
    have hunit : tenTo a.scale = tenTo b.scale * tenTo (a.scale - b.scale) :=
      tenTo_eq_mul hscale
    refine map_value_ofParts? ((Nat.sub_le _ _).trans a.scale_le) ?_
      (.inr ((Nat.div_le_self _ _).trans_lt a.coefficient_lt))
    rw [hq, Nat.cast_div (Nat.dvd_of_mod_eq_zero hdivides) hb', hunit]
    push_cast
    field_simp
  · -- The coefficients divide, and the result is an integer.
    have hunit : tenTo b.scale = tenTo a.scale * tenTo (b.scale - a.scale) :=
      tenTo_eq_mul (Nat.le_of_not_le hscale)
    refine map_value_ofParts? (Nat.zero_le 28) ?_ (.inl rfl)
    rw [hq, Nat.cast_mul (a.coefficient / b.coefficient),
      Nat.cast_div (Nat.dvd_of_mod_eq_zero hdivides) hb', hunit, tenTo_zero]
    push_cast
    field_simp
  · have hpos : 0 < b.coefficient * tenTo a.scale :=
      Nat.mul_pos (Nat.pos_of_ne_zero hb) (tenTo_pos _)
    rw [← map_value_nearest? hpos hq]
    generalize nearest? _ _ _ 28 = nearest
    cases nearest with
    | none => rfl
    | some d =>
      dsimp only
      rw [Option.map_some, Option.map_some, value_dropGroups, value_dropTrailing]

theorem map_value_divide? (a : Decimal) {b : Decimal} (hb : b.value ≠ 0) :
    (a.divide? b).map value = rounded? (a.value / b.value) := by
  have hnonzero : b.isZero = false := by
    rw [← Bool.not_eq_true, isZero_iff_value]
    exact hb
  rw [divide?, hnonzero, if_neg Bool.false_ne_true]
  split_ifs with ha
  · rw [isZero_iff_value.mp ha, zero_div, Option.map_some, value_zero, ← value_zero,
      rounded?_value]
  · rw [isZero_iff_value] at ha
    have hsign : (a.negative != b.negative) = decide (a.value / b.value < 0) := by
      have hsignA := negative_iff_value ha
      have hsignB := negative_iff_value hb
      rw [Bool.eq_iff_iff, decide_eq_true_iff, div_neg_iff]
      grind
    have hcoefficient : b.coefficient ≠ 0 := by simpa [isZero] using hnonzero
    rw [hsign, map_value_quotient? hcoefficient]
    rw [abs_div, abs_value, abs_value]
    push_cast
    field_simp

end Decimal

end FormulaEngine
