import FormulaEngine.Decimal.Basic

/-!
# Decimals and binary floats

Powers, trigonometry and logarithms are computed on 64-bit binary floats.
This module has the two conversions.  Both are exact integer steps around
the float's bits, except for the few float operations that
`Decimal.toFloat` names.

* `Decimal.toFloat` divides the fraction apart from the integer part and
  rounds the sum at the decimal place of the scale, so the result depends on
  the scale and not on the value alone.
* `Decimal.ofFloat?` turns the binary exponent into a decimal one step by
  step, keeps the coefficient below `2 ^ 96` while it does, and then rounds
  the fraction down to at most 52 bits.
-/

namespace FormulaEngine

namespace Decimal

/-! ## To a float -/

/-- The float nearest to a natural number. -/
def floatOfNat (n : Nat) : Float := Float.ofScientific n false 0

/-- `base ^ exponent * factor` by repeated squaring. -/
def floatPower (exponent : Nat) (base factor : Float) : Float :=
  if exponent = 0 then factor
  else floatPower (exponent / 2) (base * base)
    (if exponent % 2 = 1 then factor * base else factor)
termination_by exponent

/-- The float of the magnitude of a decimal. -/
def magnitudeToFloat (coefficient scale : Nat) : Float :=
  if scale = 0 then floatOfNat coefficient
  else
    let whole := floatOfNat (coefficient / tenTo scale)
    let fraction := floatOfNat (coefficient % tenTo scale) / floatOfNat (tenTo scale)
    if fraction == 0 then whole
    else
      let places := floatPower scale 10 1
      ((whole + fraction) * places).round / places

/-- The float of a decimal.  A signed zero keeps its sign if it has a
scale. -/
def toFloat (d : Decimal) : Float :=
  let magnitude := magnitudeToFloat d.coefficient d.scale
  if d.negative && (d.scale != 0 || d.coefficient != 0) then -magnitude else magnitude

/-! ## From a float

A number is held as `coefficient * 10 ^ exponent` times a power of five that
the steps use up. -/

/-- A coefficient with its decimal exponent. -/
abbrev Scaled := Nat × Int

/-- Uses up `fives` factors of one fifth: each step halves an even
coefficient, or multiplies by five while there is room, or drops a bit. -/
def absorbFifths (coefficient : Nat) (exponent : Int) : Nat → Scaled
  | 0 => (coefficient, exponent)
  | fives + 1 =>
    if coefficient % 2 = 0 then absorbFifths (coefficient / 2) (exponent + 1) fives
    else if 5 * coefficient < twoTo 96 then absorbFifths (coefficient * 5) exponent fives
    else absorbFifths (coefficient / 2) (exponent + 1) fives

/-- Uses up `fives` factors of five, given as one tenth each: a step doubles
the coefficient while there is room, or divides it by five.  None if the
exponent is too large for that. -/
def absorbFives (coefficient : Nat) (exponent : Int) : Nat → Option Scaled
  | 0 => some (coefficient, exponent)
  | fives + 1 =>
    if coefficient < twoTo 95 then absorbFives (coefficient * 2) (exponent - 1) fives
    else if 2 * exponent > (fives + 1 : Nat) then none
    else absorbFives (coefficient / 5) exponent fives

/-- Writes out `tens` trailing zeros, if they fit. -/
def appendZeros (coefficient : Nat) : Nat → Option Nat
  | 0 => some coefficient
  | tens + 1 =>
    if coefficient * 10 < twoTo 96 then appendZeros (coefficient * 10) tens else none

/-- One decimal place less, a half upwards. -/
def dropPlace (coefficient : Nat) : Nat :=
  if 5 ≤ coefficient % 10 then coefficient / 10 + 1 else coefficient / 10

/-- Drops decimal places beyond the 28th.  A coefficient that is used up
leaves zero. -/
def cutToScale (coefficient : Nat) : Nat → Nat × Nat
  | 0 => (coefficient, 28)
  | excess + 1 =>
    if coefficient / 10 = 0 then (0, 0) else cutToScale (dropPlace coefficient) excess

/-- Drops decimal places while the coefficient has more than 52 bits. -/
def cutToPrecision (coefficient : Nat) : Nat → Nat × Nat
  | 0 => (coefficient, 0)
  | places + 1 =>
    if twoTo 52 ≤ coefficient then cutToPrecision (dropPlace coefficient) places
    else (coefficient, places + 1)

/-- The decimal of a coefficient with a decimal exponent. -/
def ofScaled? (negative : Bool) (coefficient : Nat) (exponent : Int) : Option Decimal :=
  if 0 ≤ exponent then
    match appendZeros coefficient exponent.toNat with
    | some whole => ofParts? negative whole 0
    | none => none
  else
    let places := (-exponent).toNat
    let (inScale, scale) :=
      if 28 < places then cutToScale coefficient (places - 28) else (coefficient, places)
    let (precise, scale) := cutToPrecision inScale scale
    let (stripped, scale) := dropZeros precise scale
    ofParts? negative stripped scale

/-- The decimal of a float; none if it is not finite or out of range. -/
def ofFloat? (x : Float) : Option Decimal :=
  let bits := x.toBits.toNat
  let negative := decide (twoTo 63 ≤ bits)
  let exponentBits : Nat := bits / twoTo 52 % twoTo 11
  let fractionBits : Nat := bits % twoTo 52
  if exponentBits = 2047 then none
  else if exponentBits = 0 && fractionBits == 0 then some zero
  else
    let coefficient := if exponentBits = 0 then fractionBits else fractionBits + twoTo 52
    let exponent : Int := if exponentBits = 0 then -1074 else (exponentBits : Int) - 1075
    if exponent ≤ 0 then
      let (coefficient, exponent) := absorbFifths coefficient exponent (-exponent).toNat
      ofScaled? negative coefficient exponent
    else
      match absorbFives coefficient exponent exponent.toNat with
      | some (coefficient, exponent) => ofScaled? negative coefficient exponent
      | none => none

end Decimal

end FormulaEngine
