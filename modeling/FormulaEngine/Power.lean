/-!
# Powers of two and ten

The bounds of number formats are powers of two, and the places of a decimal
are powers of ten.
-/

namespace FormulaEngine

/-- Two to the power of `n`. -/
def twoTo (n : Nat) : Nat := Nat.pow 2 n

/-- Ten to the power of `n`. -/
def tenTo (n : Nat) : Nat := Nat.pow 10 n

theorem tenTo_zero : tenTo 0 = 1 := rfl

theorem tenTo_succ (n : Nat) : tenTo (n + 1) = tenTo n * 10 := rfl

theorem tenTo_pos (n : Nat) : 0 < tenTo n := Nat.pow_pos (by decide)

theorem tenTo_add (m n : Nat) : tenTo (m + n) = tenTo m * tenTo n := Nat.pow_add 10 m n

theorem le_tenTo_self {n : Nat} (h : n ≠ 0) : 10 ≤ tenTo n := Nat.le_self_pow h 10

end FormulaEngine
