import FormulaEngine.Proofs.Text.Selection
import FormulaEngine.Proofs.Token.Respelling
import FormulaEngine.Proofs.Token.Scanning
import FormulaEngine.Proofs.Token.Spelling

/-!
# Tokens cover their text

The tokens of an accepted text are the text itself, cut into pieces.
`CoversExactly` says this of the ranges alone: each one selects a piece of one
line, they follow each other without overlap, what lies between them is gaps,
and a token is what its piece stands for.

A minus sign alone is not told by its piece.  It depends on the token before
it.

* `kindOfPiece?` is the kind of a piece by itself.
  `kindOfPiece?_of_readLexeme?` says that a lexeme has the kind of its
  characters, whatever follows them.
* `markedKind_eq_negate_iff` and `operandFollows_lastKind?_iff` are the pass over
  the minus signs.
* `Scans.pairwise` and `Scans.covers_iff` go over a text from lexeme to lexeme,
  with `Scans.not_start_isBefore`: no token starts before the place where
  scanning does.
* `tokens_cover_text` puts them together, for the piece of each token that
  `exists_piece_of_tokenize` finds.
-/

namespace FormulaEngine

open Text

variable {p : Punctuation}

/-! ## The kind of a piece -/

/-- What a piece of text stands for by itself.  A minus sign is the
subtraction. -/
def kindOfPiece? (p : Punctuation) : List Char → Option TokenKind
  | [] => none
  | c :: rest =>
    if c.isDigit then numberKind? p.decimalSeparator (c :: rest)
    else if isIdentifierStart c then some (.identifier (String.ofList (c :: rest)))
    else if c = '(' then some .leftBracket
    else if c = ')' then some .rightBracket
    else if c = p.argumentSeparator then some .separator
    else (operatorSpellings.lookup (c :: rest)).map fun op => .operator (.binary op)

theorem kindOfPiece?_of_readNumber? {chars : List Char} {lexeme : Lexeme}
    (h : readNumber? p.decimalSeparator chars = some lexeme) :
    kindOfPiece? p lexeme.text = some lexeme.kind := by
  have hdigits := splitRun_all Char.isDigit chars
  rw [readNumber?, splitNumber] at h
  split at h
  · cases h
  · rename_i c literal after hsplit
    -- The literal starts with the first digit of the number.
    have hdigit : c.isDigit = true := by
      split at hsplit
      · cases hsplit
      · rename_i heq
        cases hsplit
        rw [heq] at hdigits
        exact hdigits _ List.mem_cons_self
    split at h
    · rename_i kind hkind
      cases h
      rw [kindOfPiece?, if_pos hdigit]
      exact hkind
    · cases h

theorem kindOfPiece?_of_readIdentifier? {chars : List Char} {lexeme : Lexeme}
    (h : readIdentifier? chars = some lexeme) :
    kindOfPiece? p lexeme.text = some lexeme.kind := by
  unfold readIdentifier? at h
  split at h
  · cases h
  · split at h
    · rename_i hstart
      cases h
      rw [kindOfPiece?, if_neg (Bool.eq_false_iff.mp (isDigit_of_isIdentifierStart hstart)),
        if_pos hstart]
    · cases h

/-- A spelling of an operator is no other piece. -/
theorem kindOfPiece?_of_mem_operatorSpellings {spelling : List Char × BinaryOp}
    (h : spelling ∈ operatorSpellings) :
    kindOfPiece? p spelling.1 = some (.operator (.binary spelling.2)) := by
  simp only [operatorSpellings, List.mem_cons, List.not_mem_nil, or_false] at h
  rcases p.argumentSeparator_eq with hseparator | hseparator <;>
    rcases h with rfl | rfl | rfl | rfl | rfl | rfl | rfl | rfl | rfl | rfl | rfl | rfl | rfl |
      rfl | rfl | rfl | rfl | rfl | rfl | rfl <;>
    rw [kindOfPiece?, hseparator] <;> rfl

theorem kindOfPiece?_of_readOperator? {chars : List Char} {lexeme : Lexeme}
    (h : readOperator? chars = some lexeme) :
    kindOfPiece? p lexeme.text = some lexeme.kind := by
  rw [readOperator?_eq, Option.map_eq_some_iff] at h
  obtain ⟨spelling, hfind, rfl⟩ := h
  exact kindOfPiece?_of_mem_operatorSpellings (List.mem_of_find?_eq_some hfind)

theorem kindOfPiece?_of_readSymbol? {chars : List Char} {lexeme : Lexeme}
    (h : readSymbol? p.argumentSeparator chars = some lexeme) :
    kindOfPiece? p lexeme.text = some lexeme.kind := by
  unfold readSymbol? at h
  split at h
  · cases h
  · split_ifs at h with hopen hclose hseparator
    · cases h
      subst hopen
      rfl
    · cases h
      subst hclose
      rfl
    · cases h
      subst hseparator
      rcases p.argumentSeparator_eq with heq | heq <;> rw [kindOfPiece?, heq] <;> rfl
    · exact kindOfPiece?_of_readOperator? h

/-- A lexeme is what its characters stand for. -/
theorem kindOfPiece?_of_readLexeme? {chars : List Char} {lexeme : Lexeme}
    (h : readLexeme? p chars = some lexeme) : kindOfPiece? p lexeme.text = some lexeme.kind := by
  unfold readLexeme? at h
  split at h
  · rename_i hnumber
    cases h
    exact kindOfPiece?_of_readNumber? hnumber
  · split at h
    · rename_i hidentifier
      cases h
      exact kindOfPiece?_of_readIdentifier? hidentifier
    · exact kindOfPiece?_of_readSymbol? h

theorem numberKind?_ne_operator (s : Char) (literal : List Char) (op : Operator) :
    numberKind? s literal ≠ some (.operator op) := by
  intro h
  unfold numberKind? at h
  split at h
  · cases h
  · split at h <;> cases h

/-- The operators among the pieces are those that have the piece as a
spelling. -/
theorem exists_mem_operatorSpellings_of_kindOfPiece? {piece : List Char} {op : Operator}
    (h : kindOfPiece? p piece = some (.operator op)) :
    ∃ binary, op = .binary binary ∧ (piece, binary) ∈ operatorSpellings := by
  cases piece with
  | nil => cases h
  | cons c rest =>
    rw [kindOfPiece?] at h
    split_ifs at h
    · exact absurd h (numberKind?_ne_operator _ _ op)
    · cases h
    · cases h
    · cases h
    · cases h
    · obtain ⟨binary, hlookup, hop⟩ := Option.map_eq_some_iff.mp h
      cases hop
      obtain ⟨left, right, happend, -⟩ := List.lookup_eq_some_iff.mp hlookup
      rw [happend]
      exact ⟨binary, rfl, List.mem_append_right left List.mem_cons_self⟩

/-- No piece is the unary minus by itself. -/
theorem kindOfPiece?_ne_negate (piece : List Char) :
    kindOfPiece? p piece ≠ some (.operator .negate) := by
  intro h
  obtain ⟨binary, hop, -⟩ := exists_mem_operatorSpellings_of_kindOfPiece? h
  cases hop

/-- The subtraction has one spelling. -/
theorem kindOfPiece?_eq_subtract_iff {piece : List Char} :
    kindOfPiece? p piece = some (.operator (.binary .subtract)) ↔ piece = ['-'] := by
  constructor
  · intro h
    obtain ⟨binary, hop, hmem⟩ := exists_mem_operatorSpellings_of_kindOfPiece? h
    cases hop
    simpa [operatorSpellings] using hmem
  · rintro rfl
    have hmem : (['-'], BinaryOp.subtract) ∈ operatorSpellings := by decide
    exact kindOfPiece?_of_mem_operatorSpellings hmem

/-! ## Minus signs -/

/-- An operand begins after these tokens: there are none, or the last one is an
operator, a left bracket or an argument separator. -/
def OperandBeginsAfter (earlier : List Token) : Prop :=
  ∀ last ∈ earlier.getLast?,
    (∃ op, last.kind = .operator op) ∨ last.kind = .leftBracket ∨ last.kind = .separator

theorem operandFollows_lastKind?_iff (earlier : List Token) :
    operandFollows (lastKind? none earlier) = true ↔ OperandBeginsAfter earlier := by
  rw [lastKind?, OperandBeginsAfter, Option.or_none]
  cases earlier.getLast? with
  | none => simp [operandFollows]
  | some last =>
    obtain ⟨kind, range⟩ := last
    cases kind <;> simp [operandFollows]

/-- A token becomes the unary minus if it is a subtraction where an operand
begins, and is not changed otherwise. -/
theorem markedKind_eq_negate_iff {previous : Option TokenKind} {kind : TokenKind}
    (hkind : kind ≠ .operator .negate) :
    markedKind previous kind = .operator .negate ↔
      kind = .operator (.binary .subtract) ∧ operandFollows previous = true := by
  rw [markedKind]
  split
  · rename_i h
    simpa using h
  · rename_i h
    simpa [hkind] using h

theorem markedKind_of_ne_negate {previous : Option TokenKind} {kind : TokenKind}
    (h : markedKind previous kind ≠ .operator .negate) : markedKind previous kind = kind := by
  rw [markedKind] at h ⊢
  split at h
  · exact absurd rfl h
  · rename_i hnot
    rw [if_neg hnot]

/-! ## Order and coverage -/

/-- No token starts before the place where scanning does. -/
theorem Scans.not_start_isBefore {previous : Option TokenKind} {here : Position}
    {text rest : List Char} {tokens : List Token} (h : Scans p previous here text rest tokens)
    {token : Token} (hmem : token ∈ tokens) : ¬token.range.start.IsBefore here := by
  obtain ⟨earlier, later, rfl⟩ := List.append_of_mem hmem
  obtain ⟨before, own, after, kind, -, -, -, -, hrange⟩ := h.exists_of_append
  rw [hrange]
  exact here.not_afterAll_isBefore before

/-- A character of two lists is in the first one or in the second one. -/
theorem exists_of_append_eq_append_cons {α : Type} {left right before after : List α} {x : α}
    (h : left ++ right = before ++ x :: after) :
    (∃ rest, left = before ++ x :: rest) ∨
      ∃ between, before = left ++ between ∧ right = between ++ x :: after := by
  rcases List.append_eq_append_iff.mp h with ⟨between, hbefore, hright⟩ | ⟨rest, hleft, hrest⟩
  · exact .inr ⟨between, hbefore, hright⟩
  · cases rest with
    | nil => exact .inr ⟨[], by simpa using hleft.symm, by simpa using hrest.symm⟩
    | cons y rest =>
      obtain ⟨rfl, -⟩ := List.cons.inj hrest
      exact .inl ⟨rest, hleft⟩

section Coverage

variable (hseparator : p.decimalSeparator = '.' ∨ p.decimalSeparator = ',')

include hseparator

/-- A token has the range of its characters. -/
theorem range_eq_spanning {here : Position} {chars own rest : List Char} {kind : TokenKind}
    (h : readLexeme? p chars = some ⟨kind, own, rest⟩) :
    Range.onLine here own.length = Range.spanning here own :=
  Range.onLine_eq_spanning here (newline_notMem_of_readLexeme? hseparator h)

/-- The tokens follow each other: a later one starts where the earlier one has
ended, or after that. -/
theorem Scans.pairwise {previous : Option TokenKind} {here : Position} {text rest : List Char}
    {tokens : List Token} (h : Scans p previous here text rest tokens) :
    tokens.Pairwise fun token later =>
      token.range.start.IsBefore later.range.start ∧
        ¬later.range.start.IsBefore token.range.stop := by
  induction h with
  | done => exact .nil
  | gap _ _ ih => exact ih
  | @lexeme previous here c own text rest kind tokens _ hread hscans ih =>
    refine .cons (fun later hlater => ?_) ih
    have hnot : ¬later.range.start.IsBefore (here.afterAll (c :: own)) :=
      hscans.not_start_isBefore hlater
    rw [range_eq_spanning hseparator hread]
    exact ⟨(here.isBefore_afterAll (List.cons_ne_nil c own)).trans_not_isBefore hnot, hnot⟩

/-- The characters that the tokens go over are those that are no gaps. -/
theorem Scans.covers_iff {previous : Option TokenKind} {here : Position} {text rest : List Char}
    {tokens : List Token} (h : Scans p previous here text rest tokens) {before after : List Char}
    {c : Char} (htext : text = before ++ c :: after) :
    (∃ token ∈ tokens, token.range.Covers (here.afterAll before)) ↔ isGap c = false := by
  induction h generalizing before after with
  | done => cases before <;> cases htext
  | @gap previous here d text rest tokens hgap hscans ih =>
    cases before with
    | nil =>
      cases htext
      -- All tokens start after the gap.
      refine iff_of_false (fun ⟨token, hmem, hnot, _⟩ => hnot ?_) (Bool.not_eq_false _ ▸ hgap)
      exact (here.isBefore_after c).trans_not_isBefore (hscans.not_start_isBefore hmem)
    | cons d' before =>
      cases htext
      exact ih rfl
  | @lexeme previous here d own text rest kind tokens hgap hread hscans ih =>
    have hrange : Range.onLine here (d :: own).length = Range.spanning here (d :: own) :=
      range_eq_spanning hseparator hread
    rw [List.exists_mem_cons_iff, hrange]
    rcases exists_of_append_eq_append_cons htext with ⟨own', hown⟩ | ⟨between, hbefore, hrest⟩
    · -- The character is one of the lexeme.
      have hmem : c ∈ d :: own := hown ▸ List.mem_append_right before List.mem_cons_self
      refine iff_of_true (.inl ?_) (isGap_eq_false_of_readLexeme? hseparator hread c hmem)
      rw [hown]
      exact Range.covers_spanning here before c own'
    · rw [← ih hrest, hbefore, Position.afterAll_append]
      exact or_iff_right (Range.not_covers_spanning_afterAll here (d :: own) between)

/-! ## Whole texts -/

/-- A token is as its piece of the text, which stands behind other tokens, says:
in the range of the piece, and of the kind that the piece stands for. -/
theorem exists_piece_of_tokenize {text : String} {earlier later : List Token} {token : Token}
    (h : tokenize p text = .ok (earlier ++ token :: later)) :
    ∃ start piece kind, piece ≠ [] ∧ token.range = Range.onLine start piece.length ∧
      token.range.piece text = piece ∧ kindOfPiece? p piece = some kind ∧
      token.kind = markedKind (lastKind? none earlier) kind := by
  obtain ⟨before, own, after, kind, htext, -, hread, hkind, hrange⟩ := exists_own_of_tokenize h
  refine ⟨_, own, kind, (readLexeme?_splits hread).1, hrange, ?_,
    kindOfPiece?_of_readLexeme? hread, hkind⟩
  rw [hrange, range_eq_spanning hseparator hread]
  exact Range.piece_spanning htext

end Coverage

/-- The tokens are the text, cut into pieces. -/
structure CoversExactly (p : Punctuation) (text : String) (tokens : List Token) : Prop where
  /-- A range is on one line, and every column of it is a character. -/
  onOneLine : ∀ token ∈ tokens, token.range.piece text ≠ [] ∧
    token.range.stop.line = token.range.start.line ∧
    token.range.stop.column = token.range.start.column + (token.range.piece text).length
  /-- The ranges are in the order of reading, and apart. -/
  inOrder : tokens.Pairwise fun token later =>
    token.range.start.IsBefore later.range.start ∧ ¬later.range.start.IsBefore token.range.stop
  /-- What is in no range is a gap, and a gap is in no range. -/
  gapsBetween : ∀ before c after, text.toList = before ++ c :: after →
    ((∃ token ∈ tokens, token.range.Covers (Position.first.afterAll before)) ↔ isGap c = false)
  /-- The unary minus is a minus sign where an operand begins. -/
  negations : ∀ earlier token later, tokens = earlier ++ token :: later →
    (token.kind = .operator .negate ↔
      token.range.piece text = ['-'] ∧ OperandBeginsAfter earlier)
  /-- Every other token is what its piece stands for. -/
  kinds : ∀ token ∈ tokens, token.kind ≠ .operator .negate →
    kindOfPiece? p (token.range.piece text) = some token.kind

/-- The tokens of every accepted text cover it exactly. -/
theorem tokens_cover_text {text : String} {tokens : List Token}
    (hseparator : p.decimalSeparator = '.' ∨ p.decimalSeparator = ',')
    (h : tokenize p text = .ok tokens) : CoversExactly p text tokens where
  onOneLine token hmem := by
    obtain ⟨earlier, later, rfl⟩ := List.append_of_mem hmem
    obtain ⟨start, piece, kind, hsome, hrange, hpiece, -⟩ := exists_piece_of_tokenize hseparator h
    rw [hpiece, hrange]
    exact ⟨hsome, rfl, rfl⟩
  inOrder := (scans_of_tokenize h).pairwise hseparator
  gapsBetween _ _ _ htext := (scans_of_tokenize h).covers_iff hseparator htext
  negations earlier token later happend := by
    subst happend
    obtain ⟨start, piece, kind, -, -, hpiece, hkind, hmarked⟩ :=
      exists_piece_of_tokenize hseparator h
    have hne : kind ≠ .operator .negate := by
      rintro rfl
      exact kindOfPiece?_ne_negate piece hkind
    rw [hmarked, hpiece, markedKind_eq_negate_iff hne, operandFollows_lastKind?_iff,
      ← kindOfPiece?_eq_subtract_iff (p := p), hkind, Option.some_inj]
  kinds token hmem hne := by
    obtain ⟨earlier, later, rfl⟩ := List.append_of_mem hmem
    obtain ⟨start, piece, kind, -, -, hpiece, hkind, hmarked⟩ :=
      exists_piece_of_tokenize hseparator h
    rw [hmarked] at hne ⊢
    rw [markedKind_of_ne_negate hne, hpiece, hkind]

/-- Two lines with a comma in a number, two signs and a subtraction. -/
theorem tokens_cover_text_of_two_lines :
    ∃ tokens, tokens =
        [⟨.operator .negate, ⟨⟨1, 1⟩, ⟨1, 2⟩⟩⟩,
          ⟨.decimal ⟨false, 15, 1, by decide, by decide⟩, ⟨⟨1, 2⟩, ⟨1, 5⟩⟩⟩,
          ⟨.operator (.binary .subtract), ⟨⟨1, 6⟩, ⟨1, 7⟩⟩⟩,
          ⟨.identifier "y", ⟨⟨1, 7⟩, ⟨1, 8⟩⟩⟩,
          ⟨.operator (.binary .lessOrEqual), ⟨⟨2, 2⟩, ⟨2, 3⟩⟩⟩,
          ⟨.operator .negate, ⟨⟨2, 4⟩, ⟨2, 5⟩⟩⟩,
          ⟨.identifier "x", ⟨⟨2, 5⟩, ⟨2, 6⟩⟩⟩] ∧
      tokenize ⟨','⟩ "-1,5 -y\n ≤ -x" = .ok tokens ∧
      CoversExactly ⟨','⟩ "-1,5 -y\n ≤ -x" tokens := by
  refine ⟨_, rfl, ?htokens, tokens_cover_text (.inr rfl) ?htokens⟩
  with_unfolding_all rfl

end FormulaEngine
