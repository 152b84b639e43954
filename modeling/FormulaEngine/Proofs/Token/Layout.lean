import FormulaEngine.Proofs.Token.LongestMatch

/-!
# Layout

The gaps between the tokens of a text can be chosen anew, as long as there is one
between any two of them: the text is split into the same tokens.

* `LaysOut` says which characters write pieces down in their order.
* `spells_of_laysOut`: whatever the layout, pieces that stand for something are read
  as that.  A piece in front of a gap is a lexeme (`isLongest_of_isPiece`), also where
  its neighbour would have gone on with it.
* `piece_of_readTokens` finds the pieces of a text that is accepted, before the minus
  signs are marked.  Marking leaves the ranges alone (`map_range_markNegations`) and
  goes by the kinds.
-/

namespace FormulaEngine

open Text

variable {p : Punctuation}

/-- The characters are the pieces in their order, with gaps in front of the first one
and behind the last one, or none, and with at least one gap between any two. -/
inductive LaysOut : List (List Char) → List Char → Prop where
  | blank {gaps : List Char} (hgaps : ∀ c ∈ gaps, isGap c = true) : LaysOut [] gaps
  | last {gaps piece : List Char} (hgaps : ∀ c ∈ gaps, isGap c = true) :
      LaysOut [piece] (gaps ++ piece)
  | more {gaps piece rest : List Char} {gap : Char} {pieces : List (List Char)}
      (hgaps : ∀ c ∈ gaps, isGap c = true) (hgap : isGap gap = true)
      (h : LaysOut pieces rest) : LaysOut (piece :: pieces) (gaps ++ (piece ++ gap :: rest))

/-! ## Marked signs -/

theorem map_range_markNegations (previous : Option TokenKind) (tokens : List Token) :
    (markNegations previous tokens).map Token.range = tokens.map Token.range := by
  induction tokens generalizing previous with
  | nil => rfl
  | cons token tokens ih => rw [markNegations, List.map_cons, List.map_cons, ih]

/-! ## Pieces that are laid out -/

theorem spells_gaps {gaps : List Char} (rest : List Char) (h : ∀ c ∈ gaps, isGap c = true) :
    Spells p gaps rest [] := by
  induction gaps with
  | nil =>
    intro position
    refine ⟨[], position, rfl, ?_⟩
    cases hread : readTokens p position rest <;> rw [List.nil_append, hread] <;> rfl
  | cons c gaps ih =>
    obtain ⟨hgap, hgaps⟩ := List.forall_mem_cons.mp h
    exact (spells_gap c (gaps ++ rest) hgap).append (ih hgaps)

/-- The piece stands for a token of the kind. -/
def StandsFor (p : Punctuation) (piece : List Char) (kind : TokenKind) : Prop :=
  IsPiece p piece ∧ kindOfPiece? p piece = some kind

section Layout

variable (hseparator : p.decimalSeparator = '.' ∨ p.decimalSeparator = ',')

include hseparator

theorem spells_piece {piece rest : List Char} {kind : TokenKind} (h : StandsFor p piece kind)
    (hrest : ∀ c ∈ rest.head?, isGap c = true) : Spells p piece rest [kind] := by
  obtain ⟨hpiece, hkind⟩ := h
  have hread := (readLexeme?_eq_some_iff hseparator).mpr
    ⟨rfl, isLongest_of_isPiece hseparator hpiece hrest, hkind⟩
  obtain ⟨c, more, rfl, -⟩ := hpiece.cases_head
  exact spells_lexeme
    (isGap_eq_false_of_writes hseparator (hpiece.writes hseparator c List.mem_cons_self)) hread

/-- In every layout the pieces are read as what they stand for. -/
theorem spells_of_laysOut {pieces : List (List Char)} {chars : List Char}
    {kinds : List TokenKind} (h : LaysOut pieces chars)
    (hkinds : List.Forall₂ (StandsFor p) pieces kinds) : Spells p chars [] kinds := by
  induction h generalizing kinds with
  | blank hgaps =>
    cases hkinds
    exact spells_gaps [] hgaps
  | last hgaps =>
    cases hkinds with
    | cons hkind hnil =>
      cases hnil
      exact (spells_gaps _ hgaps).append (spells_piece hseparator hkind (by simp))
  | @more gaps piece rest gap pieces hgaps hgap _ ih =>
    cases hkinds with
    | cons hkind hkinds =>
      have hfollows : ∀ c ∈ (gap :: rest ++ []).head?, isGap c = true := by
        intro c hc
        cases hc
        exact hgap
      exact (spells_gaps _ hgaps).append ((spells_piece hseparator hkind hfollows).append
        ((spells_gap gap (rest ++ []) hgap).append (ih hkinds)))

/-- Every token that is read stands for the piece of the text in its range. -/
theorem piece_of_readTokens {text : String} {before chars : List Char} {tokens : List Token}
    (htext : text.toList = before ++ chars)
    (h : readTokens p (Position.first.afterAll before) chars = .ok tokens) :
    ∀ token ∈ tokens, StandsFor p (token.range.piece text) token.kind := by
  generalize hhere : Position.first.afterAll before = here at h
  induction here, chars using readTokens.induct (p := p) generalizing before tokens with
  | case1 here =>
    rw [readTokens] at h
    cases h
    exact List.forall_mem_nil _
  | case2 here c rest hgap ih =>
    rw [readTokens, if_pos hgap] at h
    have hrest : text.toList = (before ++ [c]) ++ rest := by simpa using htext
    refine ih hrest ?_ h
    rw [Position.afterAll_append, hhere]
    rfl
  | case3 here c rest hgap hnone =>
    rw [readTokens_of_none hgap hnone] at h
    cases h
  | case4 here c rest hgap lexeme hlexeme e hrest ih =>
    rw [readTokens_of_lexeme hgap hlexeme, hrest] at h
    cases h
  | case5 here c rest hgap lexeme hlexeme others hothers ih =>
    rw [readTokens_of_lexeme hgap hlexeme, hothers] at h
    cases h
    obtain ⟨happend, hlongest, hkind⟩ := (readLexeme?_eq_some_iff hseparator).mp hlexeme
    rw [← happend] at htext
    have hrest : text.toList = (before ++ lexeme.text) ++ lexeme.rest := by
      rw [htext, List.append_assoc]
    refine List.forall_mem_cons.mpr ⟨?_, ih hrest ?_ hothers⟩
    · have hpiece : (Range.onLine here lexeme.text.length).piece text = lexeme.text := by
        rw [← hhere, range_eq_spanning hseparator hlexeme]
        exact Range.piece_spanning htext
      rw [hpiece]
      exact ⟨hlongest.holds, hkind⟩
    · rw [Position.afterAll_append, hhere]

end Layout

/-! ## Texts -/

/-- An accepted text that is laid out anew has the same tokens. -/
theorem layout_is_irrelevant {text text' : String} {tokens : List Token}
    (hseparator : p.decimalSeparator = '.' ∨ p.decimalSeparator = ',')
    (h : tokenize p text = .ok tokens)
    (hlayout : LaysOut (tokens.map fun token => token.range.piece text) text'.toList) :
    ∃ tokens', tokenize p text' = .ok tokens' ∧
      tokens'.map Token.kind = tokens.map Token.kind := by
  rw [tokenize] at h
  split at h
  · cases h
  · rename_i unmarked hread
    cases h
    have hranges := map_range_markNegations none unmarked
    have hpieces : (markNegations none unmarked).map (fun token => token.range.piece text) =
        unmarked.map fun token => token.range.piece text := by
      simpa [Function.comp_def] using congrArg (List.map fun range => range.piece text) hranges
    have hkinds : List.Forall₂ (StandsFor p)
        (unmarked.map fun token => token.range.piece text) (unmarked.map Token.kind) := by
      rw [List.forall₂_map_left_iff, List.forall₂_map_right_iff, List.forall₂_same]
      have htext : text.toList = [] ++ text.toList := rfl
      exact piece_of_readTokens hseparator htext hread
    rw [hpieces] at hlayout
    obtain ⟨unmarked', hsame, hread'⟩ := (spells_of_laysOut hseparator hlayout hkinds).tokenize
    rw [String.ofList_toList] at hread'
    refine ⟨_, hread', ?_⟩
    rw [map_kind_markNegations, map_kind_markNegations, hsame]

/-- A sign, and a number in front of a name that could have started its exponent. -/
theorem layout_is_irrelevant_of_no_exponent :
    ∃ tokens, tokens =
        [⟨.operator .negate, ⟨⟨1, 1⟩, ⟨1, 2⟩⟩⟩, ⟨.integer 2, ⟨⟨1, 2⟩, ⟨1, 3⟩⟩⟩,
          ⟨.identifier "e", ⟨⟨1, 3⟩, ⟨1, 4⟩⟩⟩,
          ⟨.operator (.binary .subtract), ⟨⟨1, 4⟩, ⟨1, 5⟩⟩⟩,
          ⟨.identifier "x", ⟨⟨1, 5⟩, ⟨1, 6⟩⟩⟩] ∧
      tokenize {} "-2e-x" = .ok tokens ∧
      LaysOut (tokens.map fun token => token.range.piece "-2e-x") " - 2\te\r\n- x\n".toList ∧
      ∃ tokens', tokenize {} " - 2\te\r\n- x\n" = .ok tokens' ∧
        tokens'.map Token.kind = tokens.map Token.kind := by
  refine ⟨_, rfl, ?htokens, ?hlayout, layout_is_irrelevant (.inl rfl) ?htokens ?hlayout⟩
  case htokens => with_unfolding_all rfl
  case hlayout =>
    have hnone : ∀ c ∈ ([] : List Char), isGap c = true := List.forall_mem_nil _
    have hone : ∀ {gap : Char}, isGap gap = true → ∀ c ∈ [gap], isGap c = true :=
      fun h => List.forall_mem_singleton.mpr h
    have hspace : isGap ' ' = true := rfl
    have htab : isGap '\t' = true := rfl
    have hreturn : isGap '\r' = true := rfl
    have hfeed : isGap '\n' = true := rfl
    have hnewline : LaysOut [['x']] ['x', '\n'] :=
      .more hnone hfeed (.blank hnone)
    have hsign : LaysOut [['-'], ['x']] ['\n', '-', ' ', 'x', '\n'] :=
      .more (hone hfeed) hspace hnewline
    have hname : LaysOut [['e'], ['-'], ['x']] ['e', '\r', '\n', '-', ' ', 'x', '\n'] :=
      .more hnone hreturn hsign
    have hnumber : LaysOut [['2'], ['e'], ['-'], ['x']]
        ['2', '\t', 'e', '\r', '\n', '-', ' ', 'x', '\n'] :=
      .more hnone htab hname
    exact .more (hone hspace) hspace hnumber

end FormulaEngine
