import FormulaEngine.Proofs.Decimal.Integers
import Mathlib.Algebra.Order.Field.Basic
import Mathlib.Algebra.Order.Field.Rat
import Mathlib.Tactic.FieldSimp
import Mathlib.Tactic.Linarith
import Mathlib.Tactic.NormNum
import Mathlib.Tactic.Positivity

/-!
# The value of a decimal

`value` is the rational number that a decimal stands for.  All forms of one
number have one value, and the order of decimals is that of their values
(`value_eq_iff`, `value_lt_iff`, `value_le_iff`).

Not every rational number is the value of a decimal; those that are satisfy
`IsValue`.
-/

namespace FormulaEngine

theorem tenTo_cast_pos (n : Nat) : (0 : ℚ) < tenTo n := Nat.cast_pos.mpr (tenTo_pos n)

theorem tenTo_le_tenTo {m n : Nat} (h : m ≤ n) : tenTo m ≤ tenTo n :=
  Nat.pow_le_pow_right (by decide) h

theorem tenTo_eq_mul {m n : Nat} (h : m ≤ n) : tenTo n = tenTo m * tenTo (n - m) := by
  rw [← tenTo_add, Nat.add_sub_cancel' h]

/-- The number of coefficients, written out. -/
theorem twoTo_96_cast : ((twoTo 96 : Nat) : ℚ) = 79228162514264337593543950336 := by
  have h : twoTo 96 = 79228162514264337593543950336 := rfl
  exact_mod_cast h

namespace Decimal

/-- The rational number that a decimal stands for. -/
def value (d : Decimal) : ℚ := d.numerator / tenTo d.scale

/-! ## Order -/

theorem value_lt_iff {a b : Decimal} : a.value < b.value ↔ a.lessThan b = true := by
  rw [value, value, div_lt_div_iff₀ (tenTo_cast_pos _) (tenTo_cast_pos _), lessThan, aligned,
    decide_eq_true_iff]
  exact_mod_cast Iff.rfl

theorem value_le_iff {a b : Decimal} : a.value ≤ b.value ↔ a.atMost b = true := by
  rw [value, value, div_le_div_iff₀ (tenTo_cast_pos _) (tenTo_cast_pos _), atMost, aligned,
    decide_eq_true_iff]
  exact_mod_cast Iff.rfl

theorem value_eq_iff {a b : Decimal} : a.value = b.value ↔ a.equals b = true := by
  rw [value, value, div_eq_div_iff (tenTo_cast_pos _).ne' (tenTo_cast_pos _).ne', equals_iff]
  exact_mod_cast Iff.rfl

theorem lessThan_eq_false_iff {a b : Decimal} : a.lessThan b = false ↔ b.value ≤ a.value := by
  rw [← not_lt, value_lt_iff, Bool.not_eq_true]

/-! ## Sign and magnitude -/

theorem abs_value (d : Decimal) : |d.value| = d.coefficient / tenTo d.scale := by
  rw [value, abs_div, abs_of_pos (tenTo_cast_pos _), ← natAbs_numerator, Nat.cast_natAbs,
    Int.cast_abs]

/-- In places that it has, a decimal is a whole number of units. -/
theorem abs_value_mul_tenTo (d : Decimal) {places : Nat} (h : d.scale ≤ places) :
    |d.value| * tenTo places = (d.coefficient * tenTo (places - d.scale) : Nat) := by
  rw [abs_value, tenTo_eq_mul h, Nat.cast_mul, Nat.cast_mul, ← mul_assoc,
    div_mul_cancel₀ _ (tenTo_cast_pos _).ne']

theorem abs_value_mul_tenTo_scale (d : Decimal) : |d.value| * tenTo d.scale = d.coefficient := by
  rw [d.abs_value_mul_tenTo (Nat.le_refl _), Nat.sub_self, tenTo_zero, Nat.mul_one]

theorem abs_value_mul_tenTo_succ (d : Decimal) :
    |d.value| * tenTo (d.scale + 1) = (10 * d.coefficient : Nat) := by
  rw [d.abs_value_mul_tenTo (Nat.le_add_right _ _), Nat.add_sub_cancel_left, Nat.mul_comm]
  rfl

/-- In fewer places than it has, a decimal has at most as many units as its
coefficient says. -/
theorem abs_value_mul_tenTo_le (d : Decimal) {places : Nat} (h : places ≤ d.scale) :
    |d.value| * tenTo places ≤ d.coefficient := by
  rw [abs_value, div_mul_eq_mul_div, div_le_iff₀ (tenTo_cast_pos _)]
  exact_mod_cast Nat.mul_le_mul_left d.coefficient (tenTo_le_tenTo h)

theorem coefficient_cast_le (d : Decimal) :
    (d.coefficient : ℚ) ≤ 79228162514264337593543950335 := by
  have h : d.coefficient ≤ 79228162514264337593543950335 := Nat.le_of_lt_succ d.coefficient_lt
  exact_mod_cast h

theorem value_eq_abs {d : Decimal} (h : d.negative = false) : d.value = |d.value| := by
  rw [abs_value, value, numerator, h]
  rfl

theorem value_eq_neg_abs {d : Decimal} (h : d.negative = true) : d.value = -|d.value| := by
  rw [abs_value, value, numerator, h, if_pos rfl, Int.cast_neg, neg_div]
  rfl

theorem value_nonneg {d : Decimal} (h : d.negative = false) : 0 ≤ d.value :=
  value_eq_abs h ▸ abs_nonneg _

theorem value_nonpos {d : Decimal} (h : d.negative = true) : d.value ≤ 0 :=
  value_eq_neg_abs h ▸ neg_nonpos.mpr (abs_nonneg _)

/-- Apart from zero, the sign is that of the value. -/
theorem negative_iff_value {d : Decimal} (h : d.value ≠ 0) :
    d.negative = true ↔ d.value < 0 := by
  constructor
  · intro hsign
    exact lt_of_le_of_ne (value_nonpos hsign) h
  · intro hless
    by_contra hsign
    exact absurd (value_nonneg (Bool.not_eq_true _ ▸ hsign)) (not_le.mpr hless)

theorem isZero_iff_value {d : Decimal} : d.isZero = true ↔ d.value = 0 := by
  rw [isZero, beq_iff_eq, ← abs_eq_zero, abs_value,
    div_eq_zero_iff, or_iff_left (tenTo_cast_pos _).ne', Nat.cast_eq_zero]

theorem value_zero : zero.value = 0 := isZero_iff_value.mp rfl

/-! ## The numbers that decimals can be -/

/-- Some decimal has this value. -/
def IsValue (q : ℚ) : Prop := ∃ d : Decimal, d.value = q

theorem isValue_zero : IsValue 0 := ⟨zero, value_zero⟩

/-- How many units in some place a decimal has, if it has no finer ones. -/
def units (places : Nat) (d : Decimal) : Int := d.numerator * tenTo (places - d.scale)

theorem value_eq_units {d : Decimal} {places : Nat} (h : d.scale ≤ places) :
    d.value = d.units places / tenTo places := by
  rw [value, units, tenTo_eq_mul h, Int.cast_mul, Nat.cast_mul, Int.cast_natCast,
    mul_div_mul_right _ _ (tenTo_cast_pos _).ne']

/-- A whole number of units in some place is a decimal if a coefficient can hold
it. -/
theorem isValue_of_units (units : Int) {places : Nat} (hplaces : places ≤ 28)
    (hfits : units.natAbs < twoTo 96) : IsValue (units / tenTo places) := by
  refine ⟨⟨decide (units < 0), units.natAbs, places, hfits, hplaces⟩, ?_⟩
  have hnumerator : numerator ⟨decide (units < 0), units.natAbs, places, hfits, hplaces⟩ =
      units := by
    rw [numerator]
    dsimp only
    split <;> rename_i hsign <;> rw [decide_eq_true_iff] at hsign <;> omega
  rw [value, hnumerator]

end Decimal

end FormulaEngine
