import FormulaEngine.Power

/-!
# Decimals

The number that every formula computes with: a sign, a coefficient below
`2 ^ 96` and a scale of at most 28, standing for
`± coefficient / 10 ^ scale`.  Both bounds are fields of the type, so every
operation states on its own that it stays inside them.

One value has many forms: `2.5` and `2.50` differ in their scale, and zero
may carry a sign.  The order and `Decimal.equals` look at the value only.
The form matters where a decimal turns into a binary float, so the
operations say which form they return.

* `Decimal.numerator` is the signed coefficient.
* `Decimal.lessThan`, `Decimal.atMost` and `Decimal.equals` compare values.
* `Decimal.ofParts?` is the checked constructor.  It never makes a signed
  zero; only `Decimal.negate` does, and a product that rounds to zero.
* `Decimal.normalize` is the form without trailing zeros in the fraction.
-/

namespace FormulaEngine

/-- A decimal number `± coefficient / 10 ^ scale`. -/
structure Decimal where
  negative : Bool
  coefficient : Nat
  scale : Nat
  coefficient_lt : coefficient < twoTo 96
  scale_le : scale ≤ 28
  deriving DecidableEq

namespace Decimal

/-! ## Making decimals -/

/-- The decimal with the given parts, if they are within the bounds.  A zero
is made without a sign. -/
def ofParts? (negative : Bool) (coefficient scale : Nat) : Option Decimal :=
  if h : coefficient < twoTo 96 ∧ scale ≤ 28 then
    some ⟨negative && coefficient != 0, coefficient, scale, h.1, h.2⟩
  else
    none

theorem integer_scale_le : 0 ≤ 28 := Nat.zero_le 28

theorem greatest_scale_le : 28 ≤ 28 := Nat.le_refl 28

theorem zero_coefficient_lt : 0 < twoTo 96 := by decide

/-- The unsigned zero without a fraction. -/
def zero : Decimal := ⟨false, 0, 0, zero_coefficient_lt, integer_scale_le⟩

/-- The one without a fraction. -/
def one : Decimal := ⟨false, 1, 0, by decide, integer_scale_le⟩

instance : Inhabited Decimal := ⟨zero⟩

/-- Truth values are the numbers one and zero. -/
def ofBool (b : Bool) : Decimal := if b then one else zero

/-- A natural number, if it fits. -/
def ofNat? (n : Nat) : Option Decimal := ofParts? false n 0

theorem natAbs_toInt_lt (n : Int64) : n.toInt.natAbs < twoTo 96 := by
  have h1 := n.toInt_lt
  have h2 := n.le_toInt
  have h3 : twoTo 96 = 79228162514264337593543950336 := rfl
  omega

/-- Every 64-bit integer is a decimal. -/
def ofInt64 (n : Int64) : Decimal :=
  ⟨decide (n.toInt < 0), n.toInt.natAbs, 0, natAbs_toInt_lt n, integer_scale_le⟩

/-! ## Value and order -/

/-- The coefficient with its sign. -/
def numerator (d : Decimal) : Int :=
  if d.negative then -(d.coefficient : Int) else d.coefficient

/-- Zero in any form. -/
def isZero (d : Decimal) : Bool := d.coefficient == 0

/-- Every number but zero counts as true. -/
def isTruthy (d : Decimal) : Bool := !d.isZero

/-- The numerators of two decimals over one common denominator. -/
def aligned (a b : Decimal) : Int × Int :=
  (a.numerator * tenTo b.scale, b.numerator * tenTo a.scale)

/-- `a` is smaller than `b` in value. -/
def lessThan (a b : Decimal) : Bool := decide ((aligned a b).1 < (aligned a b).2)

/-- `a` is at most `b` in value. -/
def atMost (a b : Decimal) : Bool := decide ((aligned a b).1 ≤ (aligned a b).2)

/-- `a` and `b` are equal in value, whatever their scales. -/
def equals (a b : Decimal) : Bool := decide ((aligned a b).1 = (aligned a b).2)

/-- The greater of two numbers, the second one of two equal numbers. -/
def max (a b : Decimal) : Decimal := if b.lessThan a then a else b

/-- The smaller of two numbers, the first one of two equal numbers. -/
def min (a b : Decimal) : Decimal := if b.lessThan a then b else a

/-! ## Sign -/

/-- The other sign with the same coefficient and scale, for zero too. -/
def negate (d : Decimal) : Decimal := { d with negative := !d.negative }

/-- The number without its sign. -/
def abs (d : Decimal) : Decimal := { d with negative := false }

/-! ## Trailing zeros -/

/-- Drops trailing zeros of the coefficient as long as there is a fraction. -/
def dropZeros (coefficient : Nat) : Nat → Nat × Nat
  | 0 => (coefficient, 0)
  | scale + 1 =>
    if coefficient % 10 = 0 then dropZeros (coefficient / 10) scale
    else (coefficient, scale + 1)

theorem dropZeros_fst_le (coefficient scale : Nat) :
    (dropZeros coefficient scale).1 ≤ coefficient := by
  induction scale generalizing coefficient with
  | zero => exact Nat.le_refl _
  | succ scale ih =>
    rw [dropZeros]
    split
    · exact Nat.le_trans (ih _) (Nat.div_le_self _ _)
    · exact Nat.le_refl _

theorem dropZeros_snd_le (coefficient scale : Nat) :
    (dropZeros coefficient scale).2 ≤ scale := by
  induction scale generalizing coefficient with
  | zero => exact Nat.le_refl _
  | succ scale ih =>
    rw [dropZeros]
    split
    · exact Nat.le_trans (ih _) (Nat.le_succ _)
    · exact Nat.le_refl _

/-- The same value with the smallest scale; zero loses its sign. -/
def normalize (d : Decimal) : Decimal :=
  let parts := dropZeros d.coefficient d.scale
  ⟨d.negative && d.coefficient != 0, parts.1, parts.2,
    Nat.lt_of_le_of_lt (dropZeros_fst_le _ _) d.coefficient_lt,
    Nat.le_trans (dropZeros_snd_le _ _) d.scale_le⟩

end Decimal

end FormulaEngine
