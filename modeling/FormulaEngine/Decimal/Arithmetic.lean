import FormulaEngine.Decimal.Rounding

/-!
# Arithmetic

Sums, products and rounding to integers.  A sum or product that lies outside
the range has no result.

A sum or product keeps the scale of its exact result unless that does not
fit.  A sum with a zero addend is the other addend in its own form, and a
product with a zero factor is the plain zero.  A product that only rounds to
zero may keep its sign and its places; `vanishedProduct` says when.
-/

namespace FormulaEngine

namespace Decimal

/-! ## Sums and products -/

/-- The exact sum, rounded if it does not fit. -/
def add? (a b : Decimal) : Option Decimal :=
  if a.isZero then some b
  else if b.isZero then some a
  else
    let scale := Nat.max a.scale b.scale
    ofExact? (a.numerator * tenTo (scale - a.scale) + b.numerator * tenTo (scale - b.scale))
      scale

/-- The exact difference, rounded if it does not fit.  Zero minus zero is
the second zero as it stands. -/
def subtract? (a b : Decimal) : Option Decimal :=
  if a.isZero then some (if b.isZero then b else b.negate)
  else if b.isZero then some a
  else
    let scale := Nat.max a.scale b.scale
    ofExact? (a.numerator * tenTo (scale - a.scale) - b.numerator * tenTo (scale - b.scale))
      scale

/-- The zero that a product rounds to when it is too small for 28 places.
Coefficients of at most 32 bits leave no sign, and no places either if the
product has more than 47 of them; wider ones leave the sign of the
product. -/
def vanishedProduct (a b : Decimal) : Decimal :=
  if a.coefficient < twoTo 32 ∧ b.coefficient < twoTo 32 then
    if 47 < a.scale + b.scale then zero
    else ⟨false, 0, 28, zero_coefficient_lt, greatest_scale_le⟩
  else ⟨a.negative != b.negative, 0, 28, zero_coefficient_lt, greatest_scale_le⟩

/-- The exact product, rounded if it does not fit. -/
def multiply? (a b : Decimal) : Option Decimal :=
  if a.isZero || b.isZero then some zero
  else
    match ofExact? (a.numerator * b.numerator) (a.scale + b.scale) with
    | some product => some (if product.isZero then vanishedProduct a b else product)
    | none => none

/-! ## Rounding to integers -/

private theorem integerPart_succ_lt (d : Decimal) (h : d.scale ≠ 0) :
    d.coefficient / tenTo d.scale + 1 < twoTo 96 := by
  have h1 : d.coefficient / tenTo d.scale ≤ d.coefficient / 10 :=
    Nat.div_le_div_left (le_tenTo_self h) (by decide)
  have h2 := d.coefficient_lt
  have h3 : twoTo 96 = 79228162514264337593543950336 := rfl
  omega

/-- The integer with the given magnitude and the sign of `d`. -/
def withMagnitude (d : Decimal) (magnitude : Nat) (h : magnitude < twoTo 96) : Decimal :=
  ⟨d.negative && magnitude != 0, magnitude, 0, h, integer_scale_le⟩

/-- The integer part: the fraction is cut off. -/
def truncate (d : Decimal) : Decimal :=
  if h : d.scale = 0 then d
  else
    d.withMagnitude (d.coefficient / tenTo d.scale)
      (Nat.lt_of_succ_lt (integerPart_succ_lt d h))

/-- The magnitude of the integer next to `d` on the side away from zero. -/
def outwards (d : Decimal) : Decimal :=
  if h : d.scale = 0 then d
  else if d.coefficient % tenTo d.scale = 0 then d.truncate
  else d.withMagnitude (d.coefficient / tenTo d.scale + 1) (integerPart_succ_lt d h)

/-- The greatest integer that is at most `d`. -/
def floor (d : Decimal) : Decimal := if d.negative then d.outwards else d.truncate

/-- The smallest integer that is at least `d`. -/
def ceiling (d : Decimal) : Decimal := if d.negative then d.truncate else d.outwards

/-- The nearest integer; a tie goes to the even neighbour. -/
def round (d : Decimal) : Decimal :=
  if h : d.scale = 0 then d
  else
    d.withMagnitude (roundHalfEven d.coefficient (tenTo d.scale))
      (Nat.lt_of_le_of_lt (roundHalfEven_le _ _) (integerPart_succ_lt d h))

end Decimal

end FormulaEngine
