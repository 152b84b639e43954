import FormulaEngine.Proofs.Text.Location
import FormulaEngine.Proofs.Token.Alphabet

/-!
# How a text is scanned

`Scans` says what reading makes of the beginning of a text, with the rest of
the text still ahead: it skips the gaps, and every lexeme is a token, placed
where its characters stand.  The minus signs are marked on the way.

* `scans_of_tokenize` says that an accepted text is scanned to its end, and
  `exists_scans_of_tokenize_error` that a refused one is scanned up to the first
  character that is neither a gap nor the start of a lexeme.
* `exists_isReadFrom_of_tokenize` finds the characters of each token:
  `Token.IsReadFrom` says what is scanned before them, and that they are the
  lexeme that comes next.
* `isGap_eq_false_of_readLexeme?`: no lexeme has a gap in it, so none runs over the
  end of a line.
-/

namespace FormulaEngine

open Text

/-! ## Scanning -/

/-- Reading goes over the first characters of a text, which stand at a position
behind a token of a certain kind and in front of the rest, and finds tokens. -/
inductive Scans (p : Punctuation) :
    Option TokenKind → Position → List Char → List Char → List Token → Prop where
  | done (previous : Option TokenKind) (here : Position) (rest : List Char) :
      Scans p previous here [] rest []
  | gap {previous : Option TokenKind} {here : Position} {c : Char} {text rest : List Char}
      {tokens : List Token} (hgap : isGap c = true)
      (h : Scans p previous (here.after c) text rest tokens) :
      Scans p previous here (c :: text) rest tokens
  | lexeme {previous : Option TokenKind} {here : Position} {c : Char}
      {own text rest : List Char} {kind : TokenKind} {tokens : List Token}
      (hgap : isGap c = false)
      (hread : readLexeme? p (c :: own ++ (text ++ rest)) = some ⟨kind, c :: own, text ++ rest⟩)
      (h : Scans p (some (markedKind previous kind)) (here.afterAll (c :: own)) text rest tokens) :
      Scans p previous here (c :: own ++ text) rest
        (⟨markedKind previous kind, Range.onLine here (c :: own).length⟩ :: tokens)

variable {p : Punctuation}

/-- A lexeme that is read at a character starts with it. -/
theorem exists_of_readLexeme? {c : Char} {rest : List Char} {lexeme : Lexeme}
    (h : readLexeme? p (c :: rest) = some lexeme) :
    ∃ own, lexeme.text = c :: own ∧ c :: own ++ lexeme.rest = c :: rest := by
  obtain ⟨hsome, happend⟩ := readLexeme?_splits h
  obtain ⟨d, own, htext⟩ := List.exists_cons_of_ne_nil hsome
  rw [htext] at happend
  obtain ⟨rfl, -⟩ := List.cons.inj happend
  exact ⟨own, htext, happend⟩

/-- One lexeme more in front of scanned characters. -/
theorem Scans.cons_lexeme {previous : Option TokenKind} {here : Position} {c : Char}
    {chars text rest : List Char} {lexeme : Lexeme} {tokens : List Token} (hgap : isGap c = false)
    (hread : readLexeme? p (c :: chars) = some lexeme) (hrest : lexeme.rest = text ++ rest)
    (h : Scans p (some (markedKind previous lexeme.kind)) (here.afterAll lexeme.text) text rest
      tokens) :
    c :: chars = lexeme.text ++ (text ++ rest) ∧
      Scans p previous here (lexeme.text ++ text) rest
        (⟨markedKind previous lexeme.kind, Range.onLine here lexeme.text.length⟩ :: tokens) := by
  obtain ⟨kind, own, after⟩ := lexeme
  dsimp only at hrest h ⊢
  subst hrest
  obtain ⟨own, rfl, happend⟩ := exists_of_readLexeme? hread
  dsimp only at happend
  rw [← happend] at hread
  exact ⟨happend.symm, .lexeme hgap hread h⟩

theorem scans_of_readTokens {here : Position} {chars : List Char} {tokens : List Token}
    (h : readTokens p here chars = .ok tokens) (previous : Option TokenKind) :
    Scans p previous here chars [] (markNegations previous tokens) := by
  induction here, chars using readTokens.induct (p := p) generalizing tokens previous with
  | case1 here =>
    rw [readTokens] at h
    cases h
    exact .done previous here []
  | case2 here c rest hgap ih =>
    rw [readTokens, if_pos hgap] at h
    exact .gap hgap (ih h previous)
  | case3 here c rest hgap hnone =>
    rw [readTokens_of_none hgap hnone] at h
    cases h
  | case4 here c rest hgap lexeme hlexeme e hrest ih =>
    rw [readTokens_of_lexeme hgap hlexeme, hrest] at h
    cases h
  | case5 here c rest hgap lexeme hlexeme others hothers ih =>
    rw [readTokens_of_lexeme hgap hlexeme, hothers] at h
    cases h
    obtain ⟨happend, hscans⟩ := Scans.cons_lexeme (by simpa using hgap) hlexeme
      (List.append_nil _).symm (ih hothers (some (markedKind previous lexeme.kind)))
    rw [happend, List.append_nil]
    exact hscans

theorem position_lexicalErrorAt (position : Position) (c : Char) (rest : List Char) :
    (lexicalErrorAt p position c rest).position = position := by
  unfold lexicalErrorAt
  split <;> rfl

/-- Where scanning stops at a character, what went wrong is at its place. -/
theorem exists_scans_of_readTokens_error {here : Position} {chars : List Char} {e : LexicalError}
    (h : readTokens p here chars = .error e) (previous : Option TokenKind) :
    ∃ before c after tokens, chars = before ++ c :: after ∧
      Scans p previous here before (c :: after) tokens ∧ isGap c = false ∧
      readLexeme? p (c :: after) = none ∧ e = lexicalErrorAt p (here.afterAll before) c after := by
  induction here, chars using readTokens.induct (p := p) generalizing previous with
  | case1 here =>
    rw [readTokens] at h
    cases h
  | case2 here c rest hgap ih =>
    rw [readTokens, if_pos hgap] at h
    obtain ⟨before, d, after, tokens, rfl, hscans, hstop⟩ := ih h previous
    exact ⟨c :: before, d, after, tokens, rfl, .gap hgap hscans, hstop⟩
  | case3 here c rest hgap hnone =>
    rw [readTokens_of_none hgap hnone] at h
    cases h
    exact ⟨[], c, rest, [], rfl, .done previous here _, by simpa using hgap, hnone, rfl⟩
  | case4 here c rest hgap lexeme hlexeme e' hrest ih =>
    rw [readTokens_of_lexeme hgap hlexeme, hrest] at h
    cases h
    obtain ⟨before, d, after, tokens, happend, hscans, hstop, hnone, he⟩ :=
      ih hrest (some (markedKind previous lexeme.kind))
    obtain ⟨hchars, hscans⟩ := Scans.cons_lexeme (by simpa using hgap) hlexeme happend hscans
    refine ⟨lexeme.text ++ before, d, after, _, ?_, hscans, hstop, hnone, ?_⟩
    · rw [hchars, List.append_assoc]
    · rw [he, Position.afterAll_append]
  | case5 here c rest hgap lexeme hlexeme others hothers ih =>
    rw [readTokens_of_lexeme hgap hlexeme, hothers] at h
    cases h

/-- An accepted text is scanned to its end. -/
theorem scans_of_tokenize {text : String} {tokens : List Token}
    (h : tokenize p text = .ok tokens) : Scans p none .first text.toList [] tokens := by
  rw [tokenize] at h
  split at h
  · cases h
  · rename_i hread
    cases h
    exact scans_of_readTokens hread none

/-- A refused text is scanned up to the first character at which nothing can be
read. -/
theorem exists_scans_of_tokenize_error {text : String} {e : LexicalError}
    (h : tokenize p text = .error e) :
    ∃ before c after tokens, text.toList = before ++ c :: after ∧
      Scans p none .first before (c :: after) tokens ∧ isGap c = false ∧
      readLexeme? p (c :: after) = none ∧
      e = lexicalErrorAt p (Position.first.afterAll before) c after := by
  rw [tokenize] at h
  split at h
  · rename_i hread
    cases h
    exact exists_scans_of_readTokens_error hread none
  · cases h

/-! ## The characters of a token -/

/-- The kind of the token before the next one, if there is one. -/
def lastKind? (previous : Option TokenKind) (tokens : List Token) : Option TokenKind :=
  (tokens.getLast?.map Token.kind).or previous

theorem lastKind?_cons (previous : Option TokenKind) (token : Token) (tokens : List Token) :
    lastKind? previous (token :: tokens) = lastKind? (some token.kind) tokens := by
  rw [lastKind?, lastKind?, List.getLast?_cons]
  cases tokens.getLast? <;> rfl

/-- The token is read from characters of a text: what is before them is
scanned, and they are the lexeme that comes next. -/
def Token.IsReadFrom (p : Punctuation) (token : Token) (before own after : List Char) : Prop :=
  ∃ earlier kind, Scans p none .first before (own ++ after) earlier ∧
    readLexeme? p (own ++ after) = some ⟨kind, own, after⟩ ∧
    token.kind = markedKind (lastKind? none earlier) kind ∧
    token.range = Range.onLine (Position.first.afterAll before) own.length

/-- Each token that is found has characters of its own.  The tokens before it are
found in the characters before them. -/
theorem Scans.exists_of_append {previous : Option TokenKind} {here : Position}
    {text rest : List Char} {earlier later : List Token} {token : Token}
    (h : Scans p previous here text rest (earlier ++ token :: later)) :
    ∃ before own after kind, text = before ++ (own ++ after) ∧
      Scans p previous here before (own ++ (after ++ rest)) earlier ∧
      readLexeme? p (own ++ (after ++ rest)) = some ⟨kind, own, after ++ rest⟩ ∧
      token.kind = markedKind (lastKind? previous earlier) kind ∧
      token.range = Range.onLine (here.afterAll before) own.length := by
  generalize htokens : earlier ++ token :: later = tokens at h
  induction h generalizing earlier with
  | done => cases List.append_ne_nil_of_right_ne_nil earlier (List.cons_ne_nil token later) htokens
  | @gap _ _ c _ _ _ hgap _ ih =>
    obtain ⟨before, own, after, kind, rfl, hscans, hown⟩ := ih htokens
    exact ⟨c :: before, own, after, kind, rfl, .gap hgap hscans, hown⟩
  | @lexeme previous here c own text rest kind tokens hgap hread _ ih =>
    cases earlier with
    | nil =>
      cases htokens
      exact ⟨[], c :: own, text, kind, rfl, .done _ _ _, hread, rfl, rfl⟩
    | cons first earlier =>
      obtain ⟨rfl, hlater⟩ := List.cons.inj htokens
      obtain ⟨before, own', after, kind', rfl, hscans, hread', hkind, hrange⟩ := ih hlater
      refine ⟨c :: own ++ before, own', after, kind', ?_, .lexeme hgap ?_ hscans, hread', ?_, ?_⟩
      · rw [List.append_assoc]
      · simpa using hread
      · rw [lastKind?_cons]
        exact hkind
      · rw [Position.afterAll_append]
        exact hrange

/-- Each token of an accepted text is read from characters of the text, and the
kind of the token before it is known. -/
theorem exists_own_of_tokenize {text : String} {earlier later : List Token} {token : Token}
    (h : tokenize p text = .ok (earlier ++ token :: later)) :
    ∃ before own after kind, text.toList = before ++ (own ++ after) ∧
      Scans p none .first before (own ++ after) earlier ∧
      readLexeme? p (own ++ after) = some ⟨kind, own, after⟩ ∧
      token.kind = markedKind (lastKind? none earlier) kind ∧
      token.range = Range.onLine (Position.first.afterAll before) own.length := by
  obtain ⟨before, own, after, kind, happend, hscans, hread, hown⟩ :=
    (scans_of_tokenize h).exists_of_append
  rw [List.append_nil] at hscans hread
  exact ⟨before, own, after, kind, happend, hscans, hread, hown⟩

/-- Each token of an accepted text is read from characters of the text. -/
theorem exists_isReadFrom_of_tokenize {text : String} {tokens : List Token}
    (h : tokenize p text = .ok tokens) {token : Token} (hmem : token ∈ tokens) :
    ∃ before own after, text.toList = before ++ (own ++ after) ∧
      token.IsReadFrom p before own after := by
  obtain ⟨earlier, later, rfl⟩ := List.append_of_mem hmem
  obtain ⟨before, own, after, kind, happend, hown⟩ := exists_own_of_tokenize h
  exact ⟨before, own, after, happend, earlier, kind, hown⟩

/-! ## No gaps in lexemes -/

theorem isGap_eq_false_of_writes (hseparator : p.decimalSeparator = '.' ∨ p.decimalSeparator = ',')
    {c : Char} (h : p.Writes c) : isGap c = false := by
  obtain ⟨separator⟩ := p
  dsimp only at hseparator
  rw [Bool.eq_false_iff]
  intro hgap
  simp only [isGap, Bool.or_eq_true, beq_iff_eq] at hgap
  rcases hseparator with rfl | rfl <;> rcases hgap with ((rfl | rfl) | rfl) | rfl <;>
    simp [Punctuation.Writes, Punctuation.argumentSeparator, symbolChars, isIdentifierPart] at h

theorem isGap_eq_false_of_readLexeme?
    (hseparator : p.decimalSeparator = '.' ∨ p.decimalSeparator = ',') {chars : List Char}
    {lexeme : Lexeme} (h : readLexeme? p chars = some lexeme) :
    ∀ c ∈ lexeme.text, isGap c = false :=
  fun c hc => isGap_eq_false_of_writes hseparator (writes_of_readLexeme? h c hc)

/-- A lexeme stands on one line. -/
theorem newline_notMem_of_readLexeme?
    (hseparator : p.decimalSeparator = '.' ∨ p.decimalSeparator = ',') {chars : List Char}
    {lexeme : Lexeme} (h : readLexeme? p chars = some lexeme) : '\n' ∉ lexeme.text :=
  fun hmem => nomatch isGap_eq_false_of_readLexeme? hseparator h '\n' hmem

end FormulaEngine
