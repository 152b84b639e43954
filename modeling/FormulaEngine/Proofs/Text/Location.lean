import FormulaEngine.Text.Position
import Mathlib.Tactic.Common

/-!
# Where positions lie

A position is found by counting lines and characters, and `byteOffset` finds
the byte at which it lies.  This module proves that the two agree.

* `Position.IsBefore` is the order of reading.  Every character moves on in it
  (`Position.isBefore_afterAll`), so no two places of a text have the same
  position.
* `byteOffset_afterAll` is the way back: the position after some characters
  lies at the byte after those characters, whatever lines they fill and however
  many bytes they take.
* `exists_between_byteOffsets` is what holds of two columns of any line, also
  of one that the text does not have: their offsets cut the text between
  characters.
-/

namespace FormulaEngine.Text

/-! ## The order of reading -/

namespace Position

/-- A position is before another one: in an earlier line, or in an earlier
column of the same line. -/
def IsBefore (p q : Position) : Prop :=
  p.line < q.line ∨ p.line = q.line ∧ p.column < q.column

instance (p q : Position) : Decidable (p.IsBefore q) := inferInstanceAs (Decidable (_ ∨ _))

theorem IsBefore.not_isBefore {p q : Position} (h : p.IsBefore q) : ¬q.IsBefore p := by
  unfold IsBefore at *
  omega

theorem not_isBefore_self (p : Position) : ¬p.IsBefore p := by
  unfold IsBefore
  omega

theorem IsBefore.trans {p q r : Position} (h : p.IsBefore q) (h' : q.IsBefore r) :
    p.IsBefore r := by
  unfold IsBefore at *
  omega

theorem IsBefore.trans_not_isBefore {p q r : Position} (h : p.IsBefore q) (h' : ¬r.IsBefore q) :
    p.IsBefore r := by
  unfold IsBefore at *
  omega

theorem isBefore_after (p : Position) (c : Char) : p.IsBefore (p.after c) := by
  rw [after]
  split
  · exact .inl (Nat.lt_succ_self _)
  · exact .inr ⟨rfl, Nat.lt_succ_self _⟩

theorem afterAll_cons (p : Position) (c : Char) (chars : List Char) :
    p.afterAll (c :: chars) = (p.after c).afterAll chars := rfl

theorem afterAll_append (p : Position) (chars chars' : List Char) :
    p.afterAll (chars ++ chars') = (p.afterAll chars).afterAll chars' :=
  List.foldl_append

/-- Characters move on. -/
theorem isBefore_afterAll (p : Position) {chars : List Char} (h : chars ≠ []) :
    p.IsBefore (p.afterAll chars) := by
  induction chars generalizing p with
  | nil => exact absurd rfl h
  | cons c rest ih =>
    rw [afterAll_cons]
    cases rest with
    | nil => exact isBefore_after p c
    | cons d rest => exact (isBefore_after p c).trans (ih (p.after c) nofun)

theorem not_afterAll_isBefore (p : Position) (chars : List Char) :
    ¬(p.afterAll chars).IsBefore p := by
  cases chars with
  | nil => exact not_isBefore_self p
  | cons c rest => exact (p.isBefore_afterAll (List.cons_ne_nil c rest)).not_isBefore

/-- Characters that end no line move on by columns. -/
theorem afterAll_of_notMem_newline (p : Position) {chars : List Char} (h : '\n' ∉ chars) :
    p.afterAll chars = ⟨p.line, p.column + chars.length⟩ := by
  induction chars generalizing p with
  | nil => rfl
  | cons c rest ih =>
    obtain ⟨hc, hrest⟩ := not_or.mp (List.mem_cons.not.mp h)
    rw [afterAll_cons, ih _ hrest, after, if_neg (Ne.symm hc), List.length_cons, Nat.add_right_comm,
      Nat.add_assoc]

end Position

/-! ## The bytes of positions -/

theorem utf8ByteSize_ofList_cons (c : Char) (chars : List Char) :
    (String.ofList (c :: chars)).utf8ByteSize =
      c.utf8Size + (String.ofList chars).utf8ByteSize := by
  rw [String.ofList_cons, String.utf8ByteSize_append]
  simp

theorem byteOffsetFrom_of_reached {target here : Position} (hline : target.line ≤ here.line)
    (hcolumn : target.column ≤ here.column) (chars : List Char) :
    byteOffsetFrom target here chars = 0 := by
  cases chars with
  | nil => rfl
  | cons c rest => simp [byteOffsetFrom, hline, hcolumn]

theorem byteOffsetFrom_of_not_reached {target here : Position}
    (h : ¬(target.line ≤ here.line ∧ target.column ≤ here.column)) (c : Char)
    (rest : List Char) :
    byteOffsetFrom target here (c :: rest) =
      c.utf8Size + byteOffsetFrom target (here.after c) rest := by
  rw [byteOffsetFrom, if_neg]
  simpa using h

/-- The position after some characters lies at the byte after them. -/
theorem byteOffsetFrom_afterAll (here : Position) (before rest : List Char) :
    byteOffsetFrom (here.afterAll before) here (before ++ rest) =
      (String.ofList before).utf8ByteSize := by
  induction before generalizing here with
  | nil => exact byteOffsetFrom_of_reached (Nat.le_refl _) (Nat.le_refl _) _
  | cons c before ih =>
    -- None of the characters before has reached the position.
    have hbefore : here.IsBefore (here.afterAll (c :: before)) :=
      here.isBefore_afterAll nofun
    have hnot : ¬((here.afterAll (c :: before)).line ≤ here.line ∧
        (here.afterAll (c :: before)).column ≤ here.column) := by
      unfold Position.IsBefore at hbefore
      omega
    rw [List.cons_append, byteOffsetFrom_of_not_reached hnot, utf8ByteSize_ofList_cons]
    exact congrArg (c.utf8Size + ·) (ih (here.after c))

/-- The byte offset of the position after the beginning of a text. -/
theorem byteOffset_afterAll (before rest : List Char) :
    byteOffset (String.ofList (before ++ rest)) (Position.first.afterAll before) =
      (String.ofList before).utf8ByteSize := by
  rw [byteOffset, String.toList_ofList]
  exact byteOffsetFrom_afterAll .first before rest

/-- The offset of a position cuts the text between characters. -/
theorem exists_before_byteOffsetFrom (target here : Position) (chars : List Char) :
    ∃ before after, chars = before ++ after ∧
      byteOffsetFrom target here chars = (String.ofList before).utf8ByteSize := by
  induction chars generalizing here with
  | nil => exact ⟨[], [], rfl, by simp [byteOffsetFrom]⟩
  | cons c rest ih =>
    by_cases hreached : target.line ≤ here.line ∧ target.column ≤ here.column
    · exact ⟨[], c :: rest, rfl,
        by simp [byteOffsetFrom_of_reached hreached.1 hreached.2]⟩
    · obtain ⟨before, after, rfl, hsize⟩ := ih (here.after c)
      exact ⟨c :: before, after, rfl, by
        rw [byteOffsetFrom_of_not_reached hreached, utf8ByteSize_ofList_cons, hsize]⟩

/-- The offsets of two columns of one line cut the text between characters,
the earlier column first. -/
theorem exists_between_byteOffsetsFrom (line : Nat) {column column' : Nat}
    (hle : column ≤ column') (here : Position) (chars : List Char) :
    ∃ before between after, chars = before ++ (between ++ after) ∧
      byteOffsetFrom ⟨line, column⟩ here chars = (String.ofList before).utf8ByteSize ∧
      byteOffsetFrom ⟨line, column'⟩ here chars =
        (String.ofList before).utf8ByteSize + (String.ofList between).utf8ByteSize := by
  induction chars generalizing here with
  | nil => exact ⟨[], [], [], rfl, by simp [byteOffsetFrom], by simp [byteOffsetFrom]⟩
  | cons c rest ih =>
    by_cases hreached : line ≤ here.line ∧ column ≤ here.column
    · obtain ⟨between, after, happend, hsize⟩ :=
        exists_before_byteOffsetFrom ⟨line, column'⟩ here (c :: rest)
      exact ⟨[], between, after, happend,
        byteOffsetFrom_of_reached hreached.1 hreached.2 _, by simp [hsize]⟩
    · -- The later column is not reached either.
      have hlater : ¬(line ≤ here.line ∧ column' ≤ here.column) := by omega
      obtain ⟨before, between, after, rfl, hstart, hstop⟩ := ih (here.after c)
      refine ⟨c :: before, between, after, rfl, ?_, ?_⟩
      · rw [byteOffsetFrom_of_not_reached hreached, hstart, utf8ByteSize_ofList_cons]
      · rw [byteOffsetFrom_of_not_reached hlater, hstop, utf8ByteSize_ofList_cons, Nat.add_assoc]

theorem exists_between_byteOffsets (source : String) (line : Nat) {column column' : Nat}
    (hle : column ≤ column') :
    ∃ before between after : String, source = before ++ (between ++ after) ∧
      byteOffset source ⟨line, column⟩ = before.utf8ByteSize ∧
      byteOffset source ⟨line, column'⟩ = before.utf8ByteSize + between.utf8ByteSize := by
  obtain ⟨before, between, after, happend, hstart, hstop⟩ :=
    exists_between_byteOffsetsFrom line hle .first source.toList
  refine ⟨.ofList before, .ofList between, .ofList after, ?_, hstart, hstop⟩
  rw [← String.ofList_append, ← String.ofList_append, ← happend, String.ofList_toList]

end FormulaEngine.Text
