import FormulaEngine.Decimal.Basic

/-!
# Decimal text

A decimal is written in its normalized form: no exponent, no trailing zeros
in the fraction, no fraction of zero digits, and no sign on zero.  Two
decimals therefore have one text exactly when they are equal in value.
-/

namespace FormulaEngine

/-- The decimal digits of a natural number. -/
def digitsOf (n : Nat) : List Char := Nat.toDigits 10 n

/-- An integer as text. -/
def integerText (n : Int) : String :=
  String.ofList (if n < 0 then '-' :: digitsOf n.natAbs else digitsOf n.natAbs)

namespace Decimal

/-- `coefficient / 10 ^ scale` in digits: the integer part always has one,
and the fraction has `scale` of them. -/
def magnitudeChars (coefficient scale : Nat) : List Char :=
  let whole := digitsOf (coefficient / tenTo scale)
  if scale = 0 then whole
  else
    let fraction := digitsOf (coefficient % tenTo scale)
    whole ++ '.' :: (List.replicate (scale - fraction.length) '0' ++ fraction)

/-- The characters of the text of a decimal. -/
def toChars (d : Decimal) : List Char :=
  let n := d.normalize
  let magnitude := magnitudeChars n.coefficient n.scale
  if n.negative then '-' :: magnitude else magnitude

/-- The text of a decimal. -/
def toText (d : Decimal) : String := String.ofList d.toChars

end Decimal

end FormulaEngine
