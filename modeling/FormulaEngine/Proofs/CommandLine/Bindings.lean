import FormulaEngine.CommandLine.Arguments
import FormulaEngine.Proofs.Decimal.Text

/-!
# Bindings and the text of numbers

A printed number has only digits, a point and a sign, so that trimming leaves it
alone, and it has no equals sign.  A binding that is written with it is split
behind the name, and reading it gives the name and the number back
(`readBinding_toText`).
-/

namespace FormulaEngine

/-! ## Trimming -/

namespace Text

theorem dropWhile_isBlankChar {chars : List Char} (h : ∀ c ∈ chars, isBlankChar c = false) :
    chars.dropWhile isBlankChar = chars := by
  cases chars with
  | nil => rfl
  | cons c rest =>
    rw [List.dropWhile_cons_of_neg]
    simp [h c List.mem_cons_self]

/-- Where nothing is blank, nothing is trimmed. -/
theorem trimChars_of_no_blank {chars : List Char} (h : ∀ c ∈ chars, isBlankChar c = false) :
    trimChars chars = chars := by
  rw [trimChars, dropWhile_isBlankChar h,
    dropWhile_isBlankChar fun c hc => h c (List.mem_reverse.mp hc), List.reverse_reverse]

theorem isBlankChar_of_isDigit {c : Char} (h : c.isDigit = true) : isBlankChar c = false := by
  rw [Char.isDigit, Bool.and_eq_true, decide_eq_true_iff, decide_eq_true_iff] at h
  exact isBlankChar_of_visible (UInt32.le_trans (by decide) h.1) (UInt32.le_trans h.2 (by decide))

end Text

namespace CommandLine

open Text

/-! ## One binding -/

theorem trimChars_toChars (d : Decimal) : trimChars d.toChars = d.toChars := by
  refine trimChars_of_no_blank fun c hc => ?_
  rcases Decimal.mem_toChars hc with hdigit | rfl | rfl
  · exact isBlankChar_of_isDigit hdigit
  · rfl
  · rfl

/-- The first equals sign of a binding is the one behind the name. -/
theorem splitAtEquals?_append {before : List Char} (after : List Char) (h : '=' ∉ before) :
    splitAtEquals? (before ++ '=' :: after) = some (before, after) := by
  have hsplit : splitRun (fun c => c != '=') (before ++ '=' :: after) = (before, '=' :: after) := by
    refine splitRun_of_all (fun c hc => ?_) (fun c hc => ?_)
    · exact bne_iff_ne.mpr fun heq => h (heq ▸ hc)
    · cases hc
      rfl
  rw [splitAtEquals?, hsplit]

/-- A binding of a printed number is read as it was written. -/
theorem readBinding_toText {name : String} (hname : name ≠ "") (htrimmed : trim name = name)
    (hplain : '=' ∉ name.toList) (d : Decimal) :
    readBinding (name ++ "=" ++ d.toText) = .ok (name, d.normalize) := by
  have hchars : (name ++ "=" ++ d.toText).toList = name.toList ++ '=' :: d.toChars := by
    simp [Decimal.toText]
  have htrim : trimChars name.toList = name.toList := by
    rw [← String.toList_ofList (l := trimChars name.toList)]
    exact congrArg String.toList htrimmed
  have hsome : name.toList.isEmpty = false := by
    simpa using hname
  rw [readBinding, hchars, splitAtEquals?_append _ hplain]
  dsimp only
  rw [htrim, hsome, trimChars_toChars, Decimal.readChars_toChars, String.ofList_toList]
  rfl

/-! ## The round trip -/

/-- Numbers are equal if and only if they are printed alike.  Reading what was
printed gives the number back, in its normalized form, and so does reading a
binding of it to any trimmed name. -/
theorem number_text_round_trip (a b : Decimal) (name : String) :
    (a.equals b = true ↔ a.toText = b.toText) ∧
      (Decimal.read a.toText = .ok a.normalize ∧ a.normalize.equals a = true) ∧
      (name ≠ "" → trim name = name → '=' ∉ name.toList →
        readBinding (name ++ "=" ++ a.toText) = .ok (name, a.normalize)) := by
  have hread : Decimal.read a.toText = .ok a.normalize := by
    rw [Decimal.read, Decimal.toText, String.toList_ofList]
    exact Decimal.readChars_toChars a
  exact ⟨Decimal.toText_eq_iff.symm, ⟨hread, Decimal.equals_normalize a⟩,
    fun hname htrimmed hplain => readBinding_toText hname htrimmed hplain a⟩

/-- One with as many zeros as fit, bound to a name with a blank and a letter that
takes two bytes. -/
theorem padded_one_round_trip :
    let padded : Decimal :=
      ⟨false, 10000000000000000000000000000, 28, by decide, Decimal.greatest_scale_le⟩
    padded.toText = Decimal.one.toText ∧ Decimal.read padded.toText = .ok .one ∧
      trim "net ß" = "net ß" ∧ '=' ∉ "net ß".toList ∧
      readBinding ("net ß" ++ "=" ++ padded.toText) = .ok ("net ß", .one) := by
  intro padded
  have hequal : padded.equals .one = true := by decide
  have hnormal : padded.normalize = .one := by decide
  have htrimmed : trim "net ß" = "net ß" := by decide
  have hplain : '=' ∉ "net ß".toList := by decide
  obtain ⟨htext, ⟨hread, -⟩, hbinding⟩ := number_text_round_trip padded .one "net ß"
  rw [hnormal] at hread hbinding
  exact ⟨htext.mp hequal, hread, htrimmed, hplain, hbinding (by decide) htrimmed hplain⟩

end CommandLine

end FormulaEngine
