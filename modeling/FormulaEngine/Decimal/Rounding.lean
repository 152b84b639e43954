import FormulaEngine.Decimal.Basic

/-!
# Rounding

Every operation computes its exact result as a fraction and rounds it once,
half to even.  `roundHalfEven` is the rule on naturals, and
`Decimal.nearest?` applies it at the greatest scale at which the rounded
coefficient fits.
-/

namespace FormulaEngine

/-- The natural number nearest to `numerator / denominator`; a tie goes to
the even neighbour. -/
def roundHalfEven (numerator denominator : Nat) : Nat :=
  let quotient := numerator / denominator
  let twice := 2 * (numerator % denominator)
  if twice < denominator then quotient
  else if denominator < twice then quotient + 1
  else if quotient % 2 = 0 then quotient
  else quotient + 1

theorem roundHalfEven_le (numerator denominator : Nat) :
    roundHalfEven numerator denominator ≤ numerator / denominator + 1 := by
  simp only [roundHalfEven]
  split
  · omega
  · split
    · omega
    · split <;> omega

theorem roundHalfEven_one (numerator : Nat) : roundHalfEven numerator 1 = numerator := by
  simp [roundHalfEven, Nat.mod_one]

namespace Decimal

/-- `± numerator / denominator` rounded at the greatest scale, up to the one
given, at which the rounded coefficient fits.  There is no such decimal if
it does not fit as an integer. -/
def nearest? (negative : Bool) (numerator denominator : Nat) : Nat → Option Decimal
  | 0 => ofParts? negative (roundHalfEven numerator denominator) 0
  | scale + 1 =>
    match ofParts? negative
        (roundHalfEven (numerator * tenTo (scale + 1)) denominator) (scale + 1) with
    | some d => some d
    | none => nearest? negative numerator denominator scale

/-- The exact number `n / 10 ^ scale`, with as few digits rounded away as
the bounds ask for. -/
def ofExact? (n : Int) (scale : Nat) : Option Decimal :=
  nearest? (decide (n < 0)) n.natAbs (tenTo scale) (Nat.min scale 28)

end Decimal

end FormulaEngine
