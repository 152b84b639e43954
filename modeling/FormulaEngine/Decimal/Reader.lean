import FormulaEngine.Decimal.Basic
import FormulaEngine.Text.Run

/-!
# Reading decimals

Two notations are read.  Plain text is a sign, digits and at most one point,
with `_` allowed between and after digits.  Scientific text is plain text,
an `e` in either case, and an integer exponent; any text with an `e` is
scientific.

Digits are taken as long as they fit.  The first digit of the fraction that
would need a 29th decimal place or a 97th bit decides the rounding of the
last digit, a half upwards; what follows it is only checked for strange
characters.  Digits of the integer part are never rounded away.

An `_` in front of the rounding digit is passed over if the coefficient is
long.  After a short one it stands for the rounding digit itself, and nothing
is rounded (`Progress.endsAtUnderscore`).

`Decimal.read` is the reader, and `Decimal.ReadError` lists the ways in
which a text can fail, each with its message.
-/

namespace FormulaEngine

namespace Decimal

/-- Why a text is no decimal. -/
inductive ReadError where
  | empty
  | noDigits
  | secondPoint
  | leadingUnderscore
  | unknownCharacter
  | tooManyDigits
  | roundingOverflow
  | malformedExponent
  | scaleTooLarge (scale : Nat)
  | tooLarge
  deriving DecidableEq

/-- The wording of a reading error. -/
def ReadError.message : ReadError → String
  | .empty => "Invalid decimal: empty"
  | .noDigits => "Invalid decimal: no digits found"
  | .secondPoint => "Invalid decimal: two decimal points"
  | .leadingUnderscore => "Invalid decimal: must start lead with a number"
  | .unknownCharacter => "Invalid decimal: unknown character"
  | .tooManyDigits => "Invalid decimal: overflow from too many digits"
  | .roundingOverflow => "Invalid decimal: overflow from mantissa after rounding"
  | .malformedExponent => "Failed to parse"
  | .scaleTooLarge scale =>
    "Scale exceeds the maximum precision allowed: " ++ toString scale ++ " > 28"
  | .tooLarge => "Number exceeds maximum value that can be represented."

/-- The value of a digit character. -/
def digitValue (c : Char) : Nat := c.toNat - '0'.toNat

/-! ## Plain text -/

/-- What the reader knows after some characters: the digits so far, how many
of them stand after the point, and whether there was a point or a digit. -/
structure Progress where
  coefficient : Nat
  scale : Nat
  seenPoint : Bool
  seenDigit : Bool

/-- Nothing read yet. -/
def Progress.start : Progress := ⟨0, 0, false, false⟩

/-- The digits read, as a decimal with the given sign. -/
def Progress.toDecimal (p : Progress) (negative : Bool) : Except ReadError Decimal :=
  if p.seenDigit then
    match ofParts? negative p.coefficient p.scale with
    | some d => .ok d
    | none => .error .tooManyDigits
  else .error .noDigits

/-- Rounds the digits so far by the first digit that has no room. -/
def Progress.roundBy (p : Progress) (digit : Nat) : Except ReadError Progress :=
  if digit < 5 then .ok p
  else if p.coefficient + 1 < twoTo 96 then .ok { p with coefficient := p.coefficient + 1 }
  else if p.scale = 0 then .error .roundingOverflow
  else .ok { p with coefficient := (p.coefficient + 5) / 10, scale := p.scale - 1 }

/-- Checks the characters after the rounding digit. -/
def checkRest : List Char → Except ReadError Unit
  | [] => .ok ()
  | c :: rest =>
    if c.isDigit || c == '_' then checkRest rest
    else if c = '.' then .error .secondPoint
    else .error .unknownCharacter

/-- The least coefficient that is long: with one more digit it comes within
256 of `2 ^ 64`. -/
def longCoefficient : Nat := (twoTo 64 - 256) / 10

/-- Whether an `_` stands for the rounding digit: all 28 places are taken,
and the coefficient was short before the last of them. -/
def Progress.endsAtUnderscore (p : Progress) : Bool :=
  p.seenPoint && p.scale == 28 && decide (p.coefficient / 10 < longCoefficient)

/-- Reads the characters after the sign. -/
def readDigits (p : Progress) : List Char → Except ReadError Progress
  | [] => .ok p
  | c :: rest =>
    if c.isDigit then
      let next := p.coefficient * 10 + digitValue c
      if p.seenPoint && (p.scale == 28 || decide (twoTo 96 ≤ next)) then
        match p.roundBy (digitValue c) with
        | .error e => .error e
        | .ok rounded =>
          match checkRest rest with
          | .error e => .error e
          | .ok () => .ok rounded
      else if twoTo 96 ≤ next then .error .tooManyDigits
      else
        readDigits
          ⟨next, if p.seenPoint then p.scale + 1 else 0, p.seenPoint, true⟩ rest
    else if c = '.' then
      if p.seenPoint then .error .secondPoint
      else readDigits { p with seenPoint := true } rest
    else if c = '_' then
      if !p.seenDigit then .error .leadingUnderscore
      else if p.endsAtUnderscore then
        match checkRest rest with
        | .error e => .error e
        | .ok () => .ok p
      else readDigits p rest
    else .error .unknownCharacter

/-- Splits off an optional sign; `true` stands for minus. -/
def splitSign : List Char → Bool × List Char
  | '-' :: rest => (true, rest)
  | '+' :: rest => (false, rest)
  | chars => (false, chars)

/-- Reads plain text. -/
def readPlain (chars : List Char) : Except ReadError Decimal :=
  if chars.isEmpty then .error .empty
  else
    let (negative, digits) := splitSign chars
    match readDigits .start digits with
    | .error e => .error e
    | .ok p => p.toDecimal negative

/-! ## Scientific text -/

/-- The value of a nonempty run of digits. -/
def natOfDigits? (chars : List Char) : Option Nat :=
  if chars.isEmpty || chars.any (fun c => !c.isDigit) then none
  else some (chars.foldl (fun n c => n * 10 + digitValue c) 0)

/-- The magnitude of an exponent: digits after an optional plus, below
`2 ^ 32`. -/
def exponentMagnitude? (chars : List Char) : Option Nat :=
  match natOfDigits? (match chars with | '+' :: rest => rest | _ => chars) with
  | some n => if n < twoTo 32 then some n else none
  | none => none

/-- Moves the point `exponent` places to the left. -/
def scaleDown (d : Decimal) (exponent : Nat) : Except ReadError Decimal :=
  if 28 < exponent then .error (.scaleTooLarge exponent)
  else
    match ofParts? d.negative d.coefficient (d.scale + exponent) with
    | some moved => .ok moved
    | none => .error (.scaleTooLarge (d.scale + exponent))

/-- Moves the point `exponent` places to the right. -/
def scaleUp (d : Decimal) (exponent : Nat) : Except ReadError Decimal :=
  if exponent ≤ d.scale then
    match ofParts? d.negative d.coefficient (d.scale - exponent) with
    | some moved => .ok moved
    | none => .error .tooLarge
  else if 28 < exponent then .error (.scaleTooLarge exponent)
  else
    match ofParts? d.negative (d.coefficient * tenTo (exponent - d.scale)) 0 with
    | some moved => .ok moved
    | none => .error .tooLarge

/-- Applies the text of an exponent. -/
def applyExponent (d : Decimal) (chars : List Char) : Except ReadError Decimal :=
  match chars with
  | '-' :: rest =>
    match exponentMagnitude? rest with
    | some exponent => d.scaleDown exponent
    | none => .error .malformedExponent
  | _ =>
    match exponentMagnitude? chars with
    | some exponent => d.scaleUp exponent
    | none => .error .malformedExponent

/-- The letter that starts an exponent. -/
def isExponentMark (c : Char) : Bool := c == 'e' || c == 'E'

/-- Reads the characters of a decimal in either notation. -/
def readChars (chars : List Char) : Except ReadError Decimal :=
  match Text.splitRun (fun c => !isExponentMark c) chars with
  | (plain, []) => readPlain plain
  | (plain, _ :: exponent) =>
    match readPlain plain with
    | .error e => .error e
    | .ok d => d.applyExponent exponent

/-- Reads a decimal in either notation. -/
def read (text : String) : Except ReadError Decimal := readChars text.toList

end Decimal

end FormulaEngine
