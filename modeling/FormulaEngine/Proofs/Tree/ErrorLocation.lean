import FormulaEngine.Proofs.Assembly.Blame
import FormulaEngine.Proofs.Token.Scanning
import FormulaEngine.Tree.Reader

/-!
# Where failures are located

A failure carries bytes of its text, found from a range that was counted in
lines and characters.  `Failure.Selects` says what these bytes are: the
characters of a piece of the text, with the others before and after it.

* `selects_of_range`: a piece of one line that has the width of the range and
  stands at its start is selected, wherever it is in the text.
* `selectsStop_of_tokenize` and `selectsToken_of_ofTokens` find such a piece for
  both kinds of errors that have a range: the character at which scanning stops,
  and the characters of the token that the assembly blames.
* `exists_selects` is what holds of any error and any text, also where lines and
  columns are those of another text.

`failures_are_located` puts them together.
-/

namespace FormulaEngine

open Text

/-! ## Selected characters -/

namespace Failure

/-- The bytes of the failure are those of `own`, which stands between `before`
and `after` in its text. -/
def Selects (failure : Failure) (before own after : String) : Prop :=
  failure.source = before ++ (own ++ after) ∧
    failure.location = ⟨before.utf8ByteSize, own.utf8ByteSize⟩

/-- The bytes of the failure are in its text, from character to character. -/
def IsWithin (failure : Failure) : Prop :=
  failure.location.offset + failure.location.length ≤ failure.source.utf8ByteSize ∧
    ∃ before own after, failure.Selects before own after

/-- The failure selects the character at which scanning its text stops: one
that is neither a gap nor the start of a lexeme. -/
def SelectsStop (p : Punctuation) (failure : Failure) : Prop :=
  ∃ before c after tokens,
    failure.Selects (.ofList before) (.singleton c) (.ofList after) ∧
      Scans p none .first before (c :: after) tokens ∧
      isGap c = false ∧ readLexeme? p (c :: after) = none

/-- The failure selects the characters that the token of its parse error is
read from, and this is a token of its text. -/
def SelectsToken (p : Punctuation) (failure : Failure) (e : ParseError) : Prop :=
  ∃ tokens token before own after,
    tokenize p failure.source = .ok tokens ∧ token ∈ tokens ∧ e.token? = some token ∧
      failure.Selects (.ofList before) (.ofList own) (.ofList after) ∧
      token.IsReadFrom p before own after

end Failure

theorem Failure.Selects.isWithin {failure : Failure} {before own after : String}
    (h : failure.Selects before own after) : failure.IsWithin := by
  refine ⟨?_, before, own, after, h⟩
  rw [h.1, h.2, String.utf8ByteSize_append, String.utf8ByteSize_append]
  dsimp only
  omega

theorem Text.Range.width_onLine (start : Position) {length : Nat} (h : 0 < length) :
    (Range.onLine start length).width = length := by
  have hmax : Nat.max (start.column + length - start.column) 1 = length := by
    rw [Nat.add_sub_cancel_left]
    exact Nat.max_eq_left h
  simpa [Range.width, Range.onLine] using hmax

/-- A range that starts after the characters before a piece of one line, and is
as wide as the piece, is the piece. -/
theorem selects_of_range {before own after : List Char} {cause : Cause} (hsome : own ≠ [])
    (hline : '\n' ∉ own)
    (hrange : cause.range? = some (.onLine (Position.first.afterAll before) own.length)) :
    (Failure.of (.ofList (before ++ (own ++ after))) cause).Selects
      (.ofList before) (.ofList own) (.ofList after) := by
  have hwidth := Range.width_onLine (Position.first.afterAll before)
    (List.length_pos_iff.mpr hsome)
  have hsize : (String.ofList (before ++ own)).utf8ByteSize =
      (String.ofList before).utf8ByteSize + (String.ofList own).utf8ByteSize := by
    rw [String.ofList_append, String.utf8ByteSize_append]
  have hstart := byteOffset_afterAll before (own ++ after)
  -- The column of the width is that of the position after the piece.
  have hstop := byteOffset_afterAll (before ++ own) after
  rw [Position.afterAll_append, Position.afterAll_of_notMem_newline _ hline, List.append_assoc,
    hsize] at hstop
  refine ⟨by simp [Failure.of], ?_⟩
  unfold Failure.of
  rw [hrange]
  dsimp only
  rw [Span.ofRange, hwidth]
  dsimp only [Range.onLine]
  rw [hstart, hstop, Nat.add_sub_cancel_left]

/-- Whatever the lines and columns of an error are, its failure stays within
the text. -/
theorem exists_selects (source : String) (cause : Cause) :
    ∃ before own after, (Failure.of source cause).Selects before own after := by
  unfold Failure.of Failure.Selects
  cases hrange : cause.range? with
  | none => exact ⟨"", source, "", by simp, rfl⟩
  | some range =>
    obtain ⟨before, own, after, hsource, hstart, hstop⟩ :=
      exists_between_byteOffsets source range.start.line
        (Nat.le_add_right range.start.column range.width)
    refine ⟨before, own, after, hsource, ?_⟩
    dsimp only [Span.ofRange]
    rw [hstop, hstart, Nat.add_sub_cancel_left]

/-! ## The two kinds of errors with a range -/

variable {p : Punctuation}

/-- A lexical error is located at the character at which scanning stops. -/
theorem selectsStop_of_tokenize {text : String} {e : LexicalError}
    (h : tokenize p text = .error e) : (Failure.of text (.lexical e)).SelectsStop p := by
  obtain ⟨before, c, after, tokens, htext, hscans, hgap, hnone, rfl⟩ :=
    exists_scans_of_tokenize_error h
  have hline : '\n' ∉ [c] := by
    intro hmem
    cases List.mem_singleton.mp hmem
    cases hgap
  refine ⟨before, c, after, tokens, ?_, hscans, hgap, hnone⟩
  rw [← String.ofList_toList (s := text), htext, String.singleton_eq_ofList]
  refine selects_of_range (List.cons_ne_nil c []) hline ?_
  rw [Cause.range?, position_lexicalErrorAt, List.length_singleton]

/-- A parse error with a range is located at the characters of its token. -/
theorem selectsToken_of_ofTokens
    (hseparator : p.decimalSeparator = '.' ∨ p.decimalSeparator = ',') {text : String}
    {tokens : List Token} (htokens : tokenize p text = .ok tokens) {scope : Scope}
    {e : ParseError} (h : Tree.ofTokens scope tokens = .error e) (hrange : e.range?.isSome = true) :
    (Failure.of text (.parse e)).SelectsToken p e := by
  rw [ParseError.range?_eq, Option.isSome_map] at hrange
  obtain ⟨token, htoken⟩ := Option.isSome_iff_exists.mp hrange
  have hmem : token ∈ tokens := Assembly.blames_of_ofTokens h token htoken
  obtain ⟨before, own, after, htext, hread⟩ := exists_isReadFrom_of_tokenize htokens hmem
  obtain ⟨earlier, kind, -, hlexeme, -, hplace⟩ := id hread
  refine ⟨tokens, token, before, own, after, htokens, hmem, htoken, ?_, hread⟩
  rw [← String.ofList_toList (s := text), htext]
  refine selects_of_range (readLexeme?_splits hlexeme).1
    (newline_notMem_of_readLexeme? hseparator hlexeme) ?_
  rw [Cause.range?, ParseError.range?_eq, htoken, Option.map_some, hplace]

/-! ## Failures -/

/-- A text that cannot be read fails at the character or the token that is at
fault, and the bytes of any failure of any text are whole characters of it. -/
theorem failures_are_located
    (hseparator : p.decimalSeparator = '.' ∨ p.decimalSeparator = ',') (scope : Scope)
    (text : String) :
    (∀ failure, Tree.read p scope text = .error failure → failure.source = text ∧
      ((∃ e, failure.cause = .lexical e ∧ failure.SelectsStop p) ∨
        ∃ e, failure.cause = .parse e ∧
          (e.range?.isSome = true → failure.SelectsToken p e))) ∧
      ∀ source cause, (Failure.of source cause).IsWithin := by
  refine ⟨fun failure hread => ?_, fun source cause => ?_⟩
  · unfold Tree.read at hread
    cases htokens : tokenize p text with
    | error e =>
      rw [htokens] at hread
      cases hread
      exact ⟨rfl, .inl ⟨e, rfl, selectsStop_of_tokenize htokens⟩⟩
    | ok tokens =>
      rw [htokens] at hread
      dsimp only at hread
      cases htree : Tree.ofTokens scope tokens with
      | error e =>
        rw [htree] at hread
        cases hread
        exact ⟨rfl, .inr ⟨e, rfl, selectsToken_of_ofTokens hseparator htokens htree⟩⟩
      | ok tree =>
        rw [htree] at hread
        cases hread
  · obtain ⟨before, own, after, hselects⟩ := exists_selects source cause
    exact hselects.isWithin

/-- What a failed reading reports: the cause and the bytes. -/
def reported (result : Except Failure Tree) : Option (Cause × Span) :=
  match result with
  | .error failure => some (failure.cause, failure.location)
  | .ok _ => none

theorem exists_of_reported {result : Except Failure Tree} {cause : Cause} {span : Span}
    (h : reported result = some (cause, span)) :
    ∃ failure, result = .error failure ∧ failure.cause = cause ∧ failure.location = span := by
  cases result with
  | error failure =>
    cases h
    exact ⟨failure, rfl, rfl, rfl⟩
  | ok tree => cases h

/-- An operator of three bytes on the second line behind a tab, and a letter
that no formula contains, with such an operator before each of them. -/
theorem failures_are_located_of_two_lines :
    (∃ failure range,
      Tree.read {} ⟨.empty false, .empty false, false⟩ "(1 ≤ 2)\n\t≠" = .error failure ∧
        failure.location = ⟨11, 3⟩ ∧
        failure.SelectsToken {} (.operatorArgumentMismatch (.binary .notEqual) range)) ∧
      (∃ failure,
        Tree.read {} ⟨.empty false, .empty false, false⟩ "1 ≤\n\t2 ≥ é" = .error failure ∧
          failure.location = ⟨13, 2⟩ ∧ failure.SelectsStop {}) ∧
      (Failure.of "a\né" (.lexical (.unexpectedCharacter 'x' ⟨2, 7⟩))).IsWithin := by
  obtain ⟨hread, hwithin⟩ := failures_are_located (p := {}) (.inl rfl)
    ⟨.empty false, .empty false, false⟩ "(1 ≤ 2)\n\t≠"
  obtain ⟨hread', -⟩ := failures_are_located (p := {}) (.inl rfl)
    ⟨.empty false, .empty false, false⟩ "1 ≤\n\t2 ≥ é"
  refine ⟨?_, ?_, hwithin _ _⟩
  · have hreported : reported (Tree.read {} ⟨.empty false, .empty false, false⟩ "(1 ≤ 2)\n\t≠") =
        some (.parse (.operatorArgumentMismatch (.binary .notEqual) (.onLine ⟨2, 2⟩ 1)),
          ⟨11, 3⟩) := by
      decide +kernel
    obtain ⟨failure, hfailure, hcause, hspan⟩ := exists_of_reported hreported
    refine ⟨failure, .onLine ⟨2, 2⟩ 1, hfailure, hspan, ?_⟩
    obtain ⟨-, ⟨e, he, -⟩ | ⟨e, he, hselects⟩⟩ := hread failure hfailure
    · rw [hcause] at he
      cases he
    · rw [hcause] at he
      cases he
      exact hselects rfl
  · have hreported : reported (Tree.read {} ⟨.empty false, .empty false, false⟩ "1 ≤\n\t2 ≥ é") =
        some (.lexical (.unexpectedCharacter 'é' ⟨2, 6⟩), ⟨13, 2⟩) := by
      decide +kernel
    obtain ⟨failure, hfailure, hcause, hspan⟩ := exists_of_reported hreported
    refine ⟨failure, hfailure, hspan, ?_⟩
    obtain ⟨-, ⟨e, -, hselects⟩ | ⟨e, he, -⟩⟩ := hread' failure hfailure
    · exact hselects
    · rw [hcause] at he
      cases he

end FormulaEngine
