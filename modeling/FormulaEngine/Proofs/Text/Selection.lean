import FormulaEngine.Proofs.Text.Location

/-!
# What a range selects

`Range.piece` is the text that a range goes over: the characters whose
positions are neither before its start nor as far as its stop.  It is found
from the positions alone, so it says what a reader of the range sees.

* `Range.piece_spanning` is the piece of a range that was made from characters: if
  some characters of a text stand after others, the range from the position of
  the first one to the position after the last one selects just them.
* `Range.covers_spanning`, `Range.not_covers_spanning_of_isBefore` and
  `Range.not_covers_spanning_afterAll` are the parts of it, for the characters
  inside, before and after.
-/

namespace FormulaEngine.Text

namespace Range

/-- The range goes over the character at a position. -/
def Covers (range : Range) (position : Position) : Prop :=
  ¬position.IsBefore range.start ∧ position.IsBefore range.stop

instance (range : Range) (position : Position) : Decidable (range.Covers position) :=
  inferInstanceAs (Decidable (_ ∧ _))

/-- The characters that a range goes over, of those that stand at a position and
after it. -/
def select (range : Range) (here : Position) : List Char → List Char
  | [] => []
  | c :: rest =>
    if range.Covers here then c :: range.select (here.after c) rest
    else range.select (here.after c) rest

/-- The piece of a text that a range goes over. -/
def piece (range : Range) (text : String) : List Char := range.select .first text.toList

theorem select_append (range : Range) (here : Position) (chars chars' : List Char) :
    range.select here (chars ++ chars') =
      range.select here chars ++ range.select (here.afterAll chars) chars' := by
  induction chars generalizing here with
  | nil => rfl
  | cons c rest ih =>
    rw [List.cons_append, select, select, ih, Position.afterAll_cons]
    split <;> rfl

theorem select_eq_self {range : Range} {here : Position} {chars : List Char}
    (h : ∀ before c after, chars = before ++ c :: after → range.Covers (here.afterAll before)) :
    range.select here chars = chars := by
  induction chars generalizing here with
  | nil => rfl
  | cons c rest ih =>
    have hhere : range.Covers here := h [] c rest rfl
    rw [select, if_pos hhere, ih]
    intro before d after happend
    exact h (c :: before) d after (congrArg (c :: ·) happend)

theorem select_eq_nil {range : Range} {here : Position} {chars : List Char}
    (h : ∀ before c after, chars = before ++ c :: after → ¬range.Covers (here.afterAll before)) :
    range.select here chars = [] := by
  induction chars generalizing here with
  | nil => rfl
  | cons c rest ih =>
    have hhere : ¬range.Covers here := h [] c rest rfl
    rw [select, if_neg hhere, ih]
    intro before d after happend
    exact h (c :: before) d after (congrArg (c :: ·) happend)

/-! ## The range of some characters -/

/-- The range of characters, of which the first one stands at a position. -/
def spanning (start : Position) (own : List Char) : Range := ⟨start, start.afterAll own⟩

theorem onLine_eq_spanning (start : Position) {own : List Char} (h : '\n' ∉ own) :
    onLine start own.length = spanning start own := by
  rw [spanning, start.afterAll_of_notMem_newline h]
  rfl

/-- The characters themselves are covered. -/
theorem covers_spanning (start : Position) (before : List Char) (c : Char) (after : List Char) :
    (spanning start (before ++ c :: after)).Covers (start.afterAll before) := by
  refine ⟨start.not_afterAll_isBefore before, ?_⟩
  rw [spanning, Position.afterAll_append]
  exact (start.afterAll before).isBefore_afterAll (List.cons_ne_nil c after)

theorem not_covers_spanning_of_isBefore {position start : Position} (h : position.IsBefore start)
    (own : List Char) : ¬(spanning start own).Covers position :=
  fun hcovers => hcovers.1 h

theorem not_covers_spanning_afterAll (start : Position) (own chars : List Char) :
    ¬(spanning start own).Covers ((start.afterAll own).afterAll chars) :=
  fun hcovers => (start.afterAll own).not_afterAll_isBefore chars hcovers.2

/-- The range of some characters of a text selects them. -/
theorem piece_spanning {text : String} {before own after : List Char}
    (h : text.toList = before ++ (own ++ after)) :
    (spanning (Position.first.afterAll before) own).piece text = own := by
  have hbefore :
      (spanning (Position.first.afterAll before) own).select .first before = [] := by
    refine select_eq_nil fun left c right happend => not_covers_spanning_of_isBefore ?_ own
    rw [happend, Position.afterAll_append]
    exact Position.isBefore_afterAll _ (List.cons_ne_nil c right)
  have hown : (spanning (Position.first.afterAll before) own).select
      (Position.first.afterAll before) own = own := by
    refine select_eq_self fun left c right happend => ?_
    rw [happend]
    exact covers_spanning _ left c right
  have hafter : (spanning (Position.first.afterAll before) own).select
      ((Position.first.afterAll before).afterAll own) after = [] :=
    select_eq_nil fun left _ _ _ => not_covers_spanning_afterAll _ own left
  rw [piece, h, select_append, select_append, hbefore, hown, hafter, List.append_nil]
  rfl

end Range

end FormulaEngine.Text
