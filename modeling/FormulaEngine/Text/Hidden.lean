import FormulaEngine.Text.CombiningMark
import FormulaEngine.Text.Unassigned

/-!
# Hidden characters

The characters that cannot be told from their looks when they stand alone:
combining marks, unassigned characters, and those without a visible shape,
which are controls, formats, separators other than the space, private
characters and fillers.
-/

namespace FormulaEngine.Text

/-- The first and last character of each run of characters without a visible
shape. -/
def shapeless : List (Nat × Nat) :=
  [(0x0, 0x1F), (0x7F, 0xA0), (0xAD, 0xAD), (0x600, 0x605), (0x61C, 0x61C), (0x6DD, 0x6DD),
    (0x70F, 0x70F), (0x890, 0x891), (0x8E2, 0x8E2), (0x115F, 0x1160), (0x1680, 0x1680),
    (0x180E, 0x180E), (0x2000, 0x200F), (0x2028, 0x202F), (0x205F, 0x2064), (0x2066, 0x206F),
    (0x3000, 0x3000), (0x3164, 0x3164), (0xE000, 0xF8FF), (0xFEFF, 0xFEFF), (0xFFA0, 0xFFA0),
    (0xFFF9, 0xFFFB), (0x110BD, 0x110BD), (0x110CD, 0x110CD), (0x13430, 0x1343F),
    (0x1BCA0, 0x1BCA3), (0x1D173, 0x1D17A), (0xE0001, 0xE0001), (0xE0020, 0xE007F),
    (0xF0000, 0xFFFFD), (0x100000, 0x10FFFD)]

/-- Whether a number lies in one of several ranges, ends included. -/
def inRanges (ranges : List (Nat × Nat)) (n : Nat) : Bool :=
  ranges.any fun (low, high) => low ≤ n && n ≤ high

/-- The characters that cannot be told from their looks. -/
def isHidden (c : Char) : Bool :=
  inRanges shapeless c.toNat || inRanges combiningMarks c.toNat || inRanges unassigned c.toNat

end FormulaEngine.Text
