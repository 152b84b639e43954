/-!
# Runs of characters

Reading takes the longest run of characters of one class from the start of
the text.  `splitRun_append` says that nothing is lost and `splitRun_all` that
the run is of that class.  `splitRun_of_all` is the way back: characters of the
class in front of one that is not of it are the run.
-/

namespace FormulaEngine.Text

/-- The longest beginning whose characters all satisfy `f`, and the rest. -/
def splitRun (f : Char → Bool) (chars : List Char) : List Char × List Char :=
  (chars.takeWhile f, chars.dropWhile f)

theorem splitRun_append (f : Char → Bool) (chars : List Char) :
    (splitRun f chars).1 ++ (splitRun f chars).2 = chars :=
  List.takeWhile_append_dropWhile

theorem splitRun_all (f : Char → Bool) (chars : List Char) :
    ∀ c ∈ (splitRun f chars).1, f c = true := by
  induction chars with
  | nil => exact nofun
  | cons c rest ih =>
    simp only [splitRun, List.takeWhile_cons]
    split
    · rename_i h
      intro x hx
      rcases List.mem_cons.1 hx with rfl | hx
      · exact h
      · exact ih x hx
    · exact nofun

/-- A run of the class ends where the next character is not of the class. -/
theorem splitRun_of_all {f : Char → Bool} {run rest : List Char} (hrun : ∀ c ∈ run, f c = true)
    (hrest : ∀ c ∈ rest.head?, f c = false) : splitRun f (run ++ rest) = (run, rest) := by
  have htake : rest.takeWhile f = [] ∧ rest.dropWhile f = rest := by
    cases rest with
    | nil => exact ⟨rfl, rfl⟩
    | cons c rest =>
      have hc : f c = false := hrest c rfl
      simp [hc]
  rw [splitRun, List.takeWhile_append_of_pos hrun, List.dropWhile_append_of_pos hrun, htake.1,
    htake.2, List.append_nil]

end FormulaEngine.Text
