/-!
# Letter case

Names are compared either as they are or after `foldCase`, which lowers the
26 ASCII capitals and leaves every other character alone.  Folding twice is
folding once (`foldCase_foldCase`).
-/

namespace FormulaEngine.Text

/-- The text with its ASCII capitals lowered. -/
def foldCase (text : String) : String := String.ofList (text.toList.map Char.toLower)

/-- The form of a name under a case policy. -/
def canonical (caseSensitive : Bool) (name : String) : String :=
  if caseSensitive then name else foldCase name

/-- Lowering a character leaves it alone or gives a small letter. -/
theorem toLower_eq_or_small (c : Char) :
    c.toLower = c ∨ 'a'.val ≤ c.toLower.val ∧ c.toLower.val ≤ 'z'.val := by
  by_cases h : 'A'.val ≤ c.val ∧ c.val ≤ 'Z'.val
  · right
    have hlower : c.toLower.val = c.val + 32 := congrArg Char.val (dif_pos h)
    rw [hlower, UInt32.le_iff_toNat_le, UInt32.le_iff_toNat_le, UInt32.toNat_add]
    rw [UInt32.le_iff_toNat_le, UInt32.le_iff_toNat_le] at h
    have hA : 'A'.val.toNat = 65 := rfl
    have hZ : 'Z'.val.toNat = 90 := rfl
    have ha : 'a'.val.toNat = 97 := rfl
    have hz : 'z'.val.toNat = 122 := rfl
    have h32 : UInt32.toNat 32 = 32 := rfl
    omega
  · exact .inl (dif_neg h)

theorem toLower_toLower (c : Char) : c.toLower.toLower = c.toLower := by
  rcases toLower_eq_or_small c with h | ⟨hsmall, _⟩
  · rw [h, h]
  · have hnot : ¬('A'.val ≤ c.toLower.val ∧ c.toLower.val ≤ 'Z'.val) := by
      rintro ⟨_, hcapital⟩
      exact absurd (UInt32.le_trans hsmall hcapital) (by decide)
    exact dif_neg hnot

theorem foldCase_foldCase (text : String) : foldCase (foldCase text) = foldCase text := by
  rw [foldCase, foldCase, String.toList_ofList, List.map_map]
  exact congrArg String.ofList (List.map_congr_left fun c _ => toLower_toLower c)

theorem canonical_canonical (caseSensitive : Bool) (name : String) :
    canonical caseSensitive (canonical caseSensitive name) = canonical caseSensitive name := by
  cases caseSensitive with
  | true => rfl
  | false => exact foldCase_foldCase name

end FormulaEngine.Text
