import FormulaEngine.Decimal.Rounding

/-!
# Quotients and remainders

Division and remainder have no result by zero.

The value of a quotient is the exact one, rounded half to even at the
greatest scale that fits.  Its form is that of a division that starts at the
difference of the two scales and goes on nine places at a time until nothing
is left or there is no more room.  If it went on at all, trailing zeros are
taken away in the end, but not always all of them: eight at a time as long
as the coefficient is a multiple of `2 ^ 32`, and then at most four, two and
one.  So `5 / 2` is `2.50`.

`dropTrailing` takes a number of zeros away or leaves the decimal as it is.
`dropTrailing_coefficient` says that the value stays the same either way.
-/

namespace FormulaEngine

namespace Decimal

/-! ## The form of a quotient -/

/-- The decimal without `zeros` trailing zeros in its fraction, if it has
that many. -/
def dropTrailing (d : Decimal) (zeros : Nat) : Decimal :=
  if zeros ≤ d.scale ∧ d.coefficient % tenTo zeros = 0 then
    ⟨d.negative, d.coefficient / tenTo zeros, d.scale - zeros,
      Nat.lt_of_le_of_lt (Nat.div_le_self _ _) d.coefficient_lt,
      Nat.le_trans (Nat.sub_le _ _) d.scale_le⟩
  else d

theorem dropTrailing_coefficient (d : Decimal) (zeros : Nat) :
    (d.dropTrailing zeros).coefficient * tenTo d.scale
      = d.coefficient * tenTo (d.dropTrailing zeros).scale := by
  unfold dropTrailing
  split
  · rename_i h
    have hs : tenTo d.scale = tenTo zeros * tenTo (d.scale - zeros) := by
      rw [← tenTo_add, Nat.add_sub_cancel' h.1]
    rw [hs, ← Nat.mul_assoc, Nat.div_mul_cancel (Nat.dvd_of_mod_eq_zero h.2)]
  · rfl

/-- Takes eight trailing zeros away if 32 bits of the coefficient are clear
at its low end. -/
def dropEight (d : Decimal) : Decimal :=
  if d.coefficient % twoTo 32 = 0 then d.dropTrailing 8 else d

/-- Takes trailing zeros away in groups of eight, four, two and one.  A scale
has room for three groups of eight. -/
def dropGroups (d : Decimal) : Decimal :=
  (((d.dropEight.dropEight.dropEight).dropTrailing 4).dropTrailing 2).dropTrailing 1

/-- How many places a division goes on, nine at a time, until nothing is
left, but not for more than the given number of steps. -/
def placesToEnd (numerator denominator : Nat) : Nat → Nat
  | 0 => 0
  | steps + 1 =>
    if numerator % denominator = 0 then 0
    else 9 + placesToEnd (numerator * tenTo 9) denominator steps

/-- The scale at which the division of two decimals ends.  It starts at
-28 or above, so seven steps lead beyond the greatest scale. -/
def endScale (a b : Decimal) : Nat :=
  a.scale + placesToEnd a.coefficient b.coefficient 7 - b.scale

/-! ## Division -/

/-- The quotient of the magnitudes with the given sign, for a divisor other
than zero.  Coefficients that divide leave the difference of the scales, or
an integer. -/
def quotient? (negative : Bool) (a b : Decimal) : Option Decimal :=
  if a.coefficient % b.coefficient = 0 then
    let quotient := a.coefficient / b.coefficient
    if b.scale ≤ a.scale then ofParts? negative quotient (a.scale - b.scale)
    else ofParts? negative (quotient * tenTo (b.scale - a.scale)) 0
  else
    match nearest? negative (a.coefficient * tenTo b.scale) (b.coefficient * tenTo a.scale) 28 with
    | some d => some (d.dropTrailing (d.scale - endScale a b)).dropGroups
    | none => none

/-- The quotient, rounded half to even; none by zero. -/
def divide? (a b : Decimal) : Option Decimal :=
  if b.isZero then none
  else if a.isZero then some zero
  else quotient? (a.negative != b.negative) a b

/-! ## Remainder -/

/-- What is left of `a` after taking away `b` as often as it goes, with the
sign of `a`; none by zero.  Two numbers of equal magnitude leave the plain
zero. -/
def remainder? (a b : Decimal) : Option Decimal :=
  if b.isZero then none
  else if a.isZero || a.abs.equals b.abs then some zero
  else if a.abs.lessThan b.abs then some a
  else
    let scale := Nat.max a.scale b.scale
    ofParts? a.negative
      ((a.coefficient * tenTo (scale - a.scale)) % (b.coefficient * tenTo (scale - b.scale)))
      scale

end Decimal

end FormulaEngine
