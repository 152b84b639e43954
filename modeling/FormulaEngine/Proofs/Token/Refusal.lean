import FormulaEngine.Proofs.Token.LongestMatch

/-!
# Where a text is refused

A text that is not split into tokens has a first character at which nothing can be
read, and the error is about that character.

* `Scans.of_cut`: the tokens found so far are those of the text cut off there, since
  no lexeme depends on what comes behind it.  `tokenize_of_scans` is the way from
  scanning back to the whole text.
* `exists_isLongest_of_refused`: nothing is read only where the longest piece stands
  for nothing.  At a digit this is a literal that is no number
  (`exists_refused_literal`).  All pieces of the other classes stand for something
  (`isSome_kindOfPiece?_of_not_isDigit`), so at any other character there is no piece.
* `lexical_errors_are_precise` puts them together.
-/

namespace FormulaEngine

open Text

variable {p : Punctuation}

/-! ## The text before the error -/

/-- What is scanned is the whole of a text that ends there. -/
theorem Scans.exists_readTokens {previous : Option TokenKind} {here : Position}
    {text : List Char} {tokens : List Token} (h : Scans p previous here text [] tokens) :
    ∃ unmarked, readTokens p here text = .ok unmarked ∧
      markNegations previous unmarked = tokens := by
  generalize hrest : [] = rest at h
  induction h with
  | done => exact ⟨[], by rw [readTokens], rfl⟩
  | gap hgap _ ih =>
    obtain ⟨unmarked, hread, hmarked⟩ := ih hrest
    exact ⟨unmarked, by rw [readTokens, if_pos hgap, hread], hmarked⟩
  | @lexeme previous here c own text rest kind tokens hgap hlexeme _ ih =>
    subst hrest
    obtain ⟨unmarked, hread, rfl⟩ := ih rfl
    rw [List.append_nil] at hlexeme
    refine ⟨⟨kind, Range.onLine here (c :: own).length⟩ :: unmarked, ?_, rfl⟩
    rw [List.cons_append] at hlexeme ⊢
    rw [readTokens_of_lexeme (Bool.eq_false_iff.mp hgap) hlexeme, hread]
    rfl

theorem tokenize_of_scans {text : List Char} {tokens : List Token}
    (h : Scans p none .first text [] tokens) : tokenize p (String.ofList text) = .ok tokens := by
  obtain ⟨unmarked, hread, rfl⟩ := h.exists_readTokens
  rw [tokenize, String.toList_ofList, hread]

/-! ## The character of the error -/

/-- A literal with a point for its decimal separator. -/
def pointSpelling (decimalSeparator : Char) (literal : List Char) : String :=
  String.ofList (literal.map fun c => if c = decimalSeparator then '.' else c)

theorem exists_error_of_numberKind? {s : Char} {literal : List Char}
    (h : numberKind? s literal = none) :
    ∃ error, Decimal.read (pointSpelling s literal) = .error error := by
  rw [Decimal.read, pointSpelling, String.toList_ofList]
  rw [numberKind?] at h
  split at h
  · cases h
  · split at h
    · cases h
    · rename_i error hread
      exact ⟨error, hread⟩

theorem IsPiece.isLiteral_of_isDigit {c : Char} {more : List Char} (h : IsPiece p (c :: more))
    (hdigit : c.isDigit = true) : IsLiteral p.decimalSeparator (c :: more) := by
  obtain ⟨d, rest, heq, hclass⟩ := h.cases_head
  obtain ⟨rfl, rfl⟩ := List.cons.inj heq
  rcases hclass with ⟨-, hliteral⟩ | ⟨hother, -⟩ | ⟨hother, -⟩
  · exact hliteral
  · rw [hdigit] at hother
    cases hother
  · rw [hdigit] at hother
    cases hother

theorem isSome_kindOfPiece?_of_not_isDigit {c : Char} {more : List Char}
    (h : IsPiece p (c :: more)) (hdigit : c.isDigit = false) :
    (kindOfPiece? p (c :: more)).isSome = true := by
  obtain ⟨d, rest, heq, hclass⟩ := h.cases_head
  obtain ⟨rfl, rfl⟩ := List.cons.inj heq
  rcases hclass with ⟨hdigit', -⟩ | ⟨-, hstart, -⟩ | ⟨-, -, hsymbol⟩
  · rw [hdigit] at hdigit'
    cases hdigit'
  · rw [kindOfPiece?, if_neg (Bool.eq_false_iff.mp hdigit), if_pos hstart]
    rfl
  · exact hsymbol.isSome_kindOfPiece?

section Refusal

variable (hseparator : p.decimalSeparator = '.' ∨ p.decimalSeparator = ',')

include hseparator

/-- What is scanned does not depend on what follows. -/
theorem Scans.of_cut {previous : Option TokenKind} {here : Position} {text rest : List Char}
    {tokens : List Token} (h : Scans p previous here text rest tokens) :
    Scans p previous here text [] tokens := by
  induction h with
  | done previous here => exact .done previous here []
  | gap hgap _ ih => exact .gap hgap ih
  | lexeme hgap hread _ ih =>
    refine .lexeme hgap ?_ ih
    rw [List.append_nil]
    exact readLexeme?_of_cut hseparator hread

/-- Where nothing is read, the longest piece stands for nothing. -/
theorem exists_isLongest_of_refused {c : Char} {after piece : List Char} (hpiece : IsPiece p piece)
    (hinitial : piece <+: c :: after) (hnone : readLexeme? p (c :: after) = none) :
    ∃ more, IsLongest (IsPiece p) (c :: more) (c :: after) ∧
      kindOfPiece? p (c :: more) = none := by
  obtain ⟨longest, hlongest⟩ := exists_isLongest hpiece hinitial
  obtain ⟨d, more, rfl, -⟩ := hlongest.holds.cases_head
  obtain ⟨rest, happend⟩ := hlongest.isPrefix
  obtain ⟨rfl, -⟩ := List.cons.inj happend
  refine ⟨more, hlongest, ?_⟩
  rw [← happend] at hlongest hnone
  rw [readLexeme?_of_isLongest hseparator hlongest, Option.map_eq_none_iff] at hnone
  exact hnone

/-- A digit at which nothing is read starts a literal that is no number. -/
theorem exists_refused_literal {c : Char} {after : List Char} (hdigit : c.isDigit = true)
    (hnone : readLexeme? p (c :: after) = none) :
    ∃ literal, IsLongest (IsLiteral p.decimalSeparator) literal (c :: after) ∧
      ∃ error, Decimal.read (pointSpelling p.decimalSeparator literal) = .error error := by
  have hfirst : IsPiece p [c] := .literal (isLiteral_singleton _ hdigit)
  obtain ⟨more, hlongest, hkind⟩ :=
    exists_isLongest_of_refused hseparator hfirst ⟨after, rfl⟩ hnone
  have hliteral := hlongest.holds.isLiteral_of_isDigit hdigit
  refine ⟨c :: more, hlongest.mono hliteral fun _ => .literal, exists_error_of_numberKind? ?_⟩
  rw [kindOfPiece?, if_pos hdigit] at hkind
  exact hkind

/-- Nothing is read at another character only if no piece starts there. -/
theorem not_isPrefix_of_readLexeme?_eq_none {c : Char} {after : List Char}
    (hdigit : c.isDigit = false) (hnone : readLexeme? p (c :: after) = none) {piece : List Char}
    (hpiece : IsPiece p piece) : ¬piece <+: c :: after := by
  intro hinitial
  obtain ⟨more, hlongest, hkind⟩ :=
    exists_isLongest_of_refused hseparator hpiece hinitial hnone
  have hsome := isSome_kindOfPiece?_of_not_isDigit hlongest.holds hdigit
  rw [hkind] at hsome
  cases hsome

end Refusal

/-! ## Lexical errors -/

/-- A lexical error is about one character of the text: everything in front of it is
split into tokens, and nothing can be read at it. -/
structure LexicalError.IsPrecise (p : Punctuation) (e : LexicalError) (before : List Char)
    (c : Char) (after : List Char) : Prop where
  /-- The error is at the place of the character. -/
  position : e.position = Position.first.afterAll before
  /-- The text in front of the character is accepted. -/
  acceptsBefore : ∃ tokens, tokenize p (String.ofList before) = .ok tokens
  /-- The character is no gap, and no token can be read at it. -/
  readsNothing : isGap c = false ∧ readLexeme? p (c :: after) = none
  /-- The error is about a number exactly if the character is a digit. -/
  isNumber_iff : (∃ literal, e = .invalidNumber literal e.position) ↔ c.isDigit = true
  /-- The longest literal that starts with the digit stands for no number. -/
  refusesLiteral : c.isDigit = true →
    ∃ literal, IsLongest (IsLiteral p.decimalSeparator) literal (c :: after) ∧
      ∃ error, Decimal.read (pointSpelling p.decimalSeparator literal) = .error error
  /-- Any other character is named, and no piece starts with it there. -/
  namesCharacter : c.isDigit = false → e = .unexpectedCharacter c e.position ∧
    ∀ piece, IsPiece p piece → ¬piece <+: c :: after

/-- Every refused text is refused at a character of it, for the reason that the error
gives. -/
theorem lexical_errors_are_precise {text : String} {e : LexicalError}
    (hseparator : p.decimalSeparator = '.' ∨ p.decimalSeparator = ',')
    (h : tokenize p text = .error e) :
    ∃ before c after, text.toList = before ++ c :: after ∧ e.IsPrecise p before c after := by
  obtain ⟨before, c, after, tokens, htext, hscans, hgap, hnone, rfl⟩ :=
    exists_scans_of_tokenize_error h
  refine ⟨before, c, after, htext, ?_⟩
  exact {
    position := position_lexicalErrorAt _ c after
    acceptsBefore := ⟨tokens, tokenize_of_scans (hscans.of_cut hseparator)⟩
    readsNothing := ⟨hgap, hnone⟩
    isNumber_iff := by
      rw [position_lexicalErrorAt, lexicalErrorAt]
      cases c.isDigit <;> simp
    refusesLiteral := fun hdigit => exists_refused_literal hseparator hdigit hnone
    namesCharacter := fun hdigit => by
      refine ⟨?_, fun piece => not_isPrefix_of_readLexeme?_eq_none hseparator hdigit hnone⟩
      rw [position_lexicalErrorAt, lexicalErrorAt, hdigit]
      rfl }

/-- A number on the second line whose exponent is too great. -/
theorem lexical_errors_are_precise_of_great_exponent :
    tokenize ⟨','⟩ "x <=\n 1,5e99 $" = .error (.invalidNumber "1,5e99" ⟨2, 2⟩) ∧
      ∃ before c after, "x <=\n 1,5e99 $".toList = before ++ c :: after ∧
        (LexicalError.invalidNumber "1,5e99" ⟨2, 2⟩).IsPrecise ⟨','⟩ before c after := by
  have hread : tokenize ⟨','⟩ "x <=\n 1,5e99 $" = .error (.invalidNumber "1,5e99" ⟨2, 2⟩) := by
    with_unfolding_all rfl
  exact ⟨hread, lexical_errors_are_precise (.inr rfl) hread⟩

end FormulaEngine
