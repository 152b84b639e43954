/-!
# Positions in a text

A position is a line and a column, both counted from one; columns count
characters, and only a line feed ends a line.  A range runs from its start
to the position after its last character.

`byteOffset` is the way back: it finds the byte at which a position lies.
-/

namespace FormulaEngine.Text

/-- A line and a column, counted from one. -/
structure Position where
  line : Nat
  column : Nat
  deriving DecidableEq

/-- A position is shown by its column. -/
def Position.toText (p : Position) : String := toString p.column

/-- The first position of a text. -/
def Position.first : Position := ⟨1, 1⟩

/-- The position after a character. -/
def Position.after (p : Position) (c : Char) : Position :=
  if c = '\n' then ⟨p.line + 1, 1⟩ else ⟨p.line, p.column + 1⟩

/-- The position after several characters. -/
def Position.afterAll (p : Position) (chars : List Char) : Position :=
  chars.foldl Position.after p

/-- Two positions, the second after the last character that is meant. -/
structure Range where
  start : Position
  stop : Position
  deriving DecidableEq

/-- A range of `length` characters on one line. -/
def Range.onLine (start : Position) (length : Nat) : Range :=
  ⟨start, ⟨start.line, start.column + length⟩⟩

/-- How many characters of its first line a range covers, at least one. -/
def Range.width (r : Range) : Nat :=
  if r.start.line = r.stop.line then Nat.max (r.stop.column - r.start.column) 1 else 1

/-- The bytes of the characters before the first one that lies neither in an
earlier line nor in an earlier column than `target`, when the first
character stands at `here`. -/
def byteOffsetFrom (target : Position) (here : Position) : List Char → Nat
  | [] => 0
  | c :: rest =>
    if target.line ≤ here.line && target.column ≤ here.column then 0
    else c.utf8Size + byteOffsetFrom target (here.after c) rest

/-- The byte offset of a position in a text; the end of the text if it has
no such position. -/
def byteOffset (source : String) (target : Position) : Nat :=
  byteOffsetFrom target .first source.toList

end FormulaEngine.Text
