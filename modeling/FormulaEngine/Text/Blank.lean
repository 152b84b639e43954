/-!
# Blank characters

Names and values are trimmed of the characters with the Unicode property
`White_Space`, and a name or formula that has no other character is blank.
The characters between tokens are a smaller set, `isGap`.
-/

namespace FormulaEngine.Text

/-- The characters with the property `White_Space`. -/
def isBlankChar (c : Char) : Bool :=
  let n := c.toNat
  (9 ≤ n && n ≤ 13) || n == 0x20 || n == 0x85 || n == 0xA0 || n == 0x1680
    || (0x2000 ≤ n && n ≤ 0x200A) || n == 0x2028 || n == 0x2029 || n == 0x202F
    || n == 0x205F || n == 0x3000

/-- The visible characters of ASCII are not blank. -/
theorem isBlankChar_of_visible {c : Char} (hlow : '!'.val ≤ c.val) (hhigh : c.val ≤ '~'.val) :
    isBlankChar c = false := by
  rw [UInt32.le_iff_toNat_le] at hlow hhigh
  have hfirst : '!'.val.toNat = 33 := rfl
  have hlast : '~'.val.toNat = 126 := rfl
  have hval : c.toNat = c.val.toNat := rfl
  rw [Bool.eq_false_iff]
  intro h
  simp only [isBlankChar, Bool.or_eq_true, Bool.and_eq_true, decide_eq_true_eq, beq_iff_eq] at h
  omega

/-- The characters that may stand between tokens. -/
def isGap (c : Char) : Bool := c == ' ' || c == '\t' || c == '\r' || c == '\n'

/-- A text without any character but blank ones. -/
def isBlank (text : String) : Bool := text.toList.all isBlankChar

/-- The characters without the blank ones at both ends. -/
def trimChars (chars : List Char) : List Char :=
  ((chars.dropWhile isBlankChar).reverse.dropWhile isBlankChar).reverse

/-- The text without the blank characters at both ends. -/
def trim (text : String) : String := String.ofList (trimChars text.toList)

end FormulaEngine.Text
