import FormulaEngine.Proofs.Token.Respelling
import FormulaEngine.Proofs.Token.Scanning

/-!
# The decimal comma

With a decimal comma, arguments are separated by semicolons.  A text is written in
this way by turning its points into commas and its commas into semicolons
(`withComma`), and it is read like before.

The map is no respelling on all characters, since semicolons would then come from
commas and from semicolons.  `cycleSeparators` turns semicolons into points as well,
which makes it one (`respelling_cycleSeparators`); on texts without semicolons the two
maps are the same.

* `Token.respell_of_tokenize`: names have no separators in them, so all tokens stay.
* `decimal_comma_respells` is the result, for accepted and refused texts.
-/

namespace FormulaEngine

open Text

/-! ## Separators -/

/-- A character of a text with decimal points, in the text with decimal commas. -/
def withComma (c : Char) : Char := if c = '.' then ',' else if c = ',' then ';' else c

/-- Points become commas, commas semicolons, and semicolons points. -/
def cycleSeparators (c : Char) : Char := if c = ';' then '.' else withComma c

theorem cycleSeparators_cases (c : Char) :
    c = '.' ∧ cycleSeparators c = ',' ∨ c = ',' ∧ cycleSeparators c = ';' ∨
      c = ';' ∧ cycleSeparators c = '.' ∨
      (c ≠ '.' ∧ c ≠ ',' ∧ c ≠ ';') ∧ cycleSeparators c = c := by
  by_cases hpoint : c = '.'
  · exact .inl ⟨hpoint, by rw [hpoint]; rfl⟩
  · by_cases hcomma : c = ','
    · exact .inr (.inl ⟨hcomma, by rw [hcomma]; rfl⟩)
    · by_cases hsemicolon : c = ';'
      · exact .inr (.inr (.inl ⟨hsemicolon, by rw [hsemicolon]; rfl⟩))
      · refine .inr (.inr (.inr ⟨⟨hpoint, hcomma, hsemicolon⟩, ?_⟩))
        rw [cycleSeparators, withComma, if_neg hsemicolon, if_neg hpoint, if_neg hcomma]

/-- A question about characters that separators do not answer differently. -/
theorem cycleSeparators_keeps {α : Type} (ask : Char → α) (hcomma : ask ',' = ask '.')
    (hsemicolon : ask ';' = ask '.') (c : Char) : ask (cycleSeparators c) = ask c := by
  rcases cycleSeparators_cases c with ⟨rfl, h⟩ | ⟨rfl, h⟩ | ⟨rfl, h⟩ | ⟨-, h⟩
  · rw [h, hcomma]
  · rw [h, hcomma, hsemicolon]
  · rw [h, hsemicolon]
  · rw [h]

theorem cycleSeparators_of_isIdentifierPart {c : Char} (h : isIdentifierPart c = true) :
    cycleSeparators c = c := by
  rcases cycleSeparators_cases c with ⟨rfl, -⟩ | ⟨rfl, -⟩ | ⟨rfl, -⟩ | ⟨-, hsame⟩
  · cases h
  · cases h
  · cases h
  · exact hsame

/-- Reading asks nothing about characters that the cycle changes, but for what the
separators are. -/
theorem respelling_cycleSeparators : Respelling ⟨'.'⟩ ⟨','⟩ cycleSeparators where
  isAlpha := cycleSeparators_keeps Char.isAlpha rfl rfl
  isDigit := cycleSeparators_keeps Char.isDigit rfl rfl
  digit c hdigit := cycleSeparators_of_isIdentifierPart (isIdentifierPart_of_isDigit hdigit)
  isExponentMark := cycleSeparators_keeps Decimal.isExponentMark rfl rfl
  plain d hd c := by
    have hpoint : '.' ≠ d := by rintro rfl; exact absurd hd (by decide)
    have hcomma : ',' ≠ d := by rintro rfl; exact absurd hd (by decide)
    have hsemicolon : ';' ≠ d := by rintro rfl; exact absurd hd (by decide)
    rcases cycleSeparators_cases c with ⟨rfl, h⟩ | ⟨rfl, h⟩ | ⟨rfl, h⟩ | ⟨-, h⟩ <;> rw [h]
    · exact iff_of_false hcomma hpoint
    · exact iff_of_false hsemicolon hcomma
    · exact iff_of_false hpoint hsemicolon
  decimalSeparator c := by
    rcases cycleSeparators_cases c with ⟨rfl, h⟩ | ⟨rfl, h⟩ | ⟨rfl, h⟩ | ⟨hother, h⟩ <;> rw [h]
    · exact iff_of_true rfl rfl
    · exact iff_of_false (by decide) (by decide)
    · exact iff_of_false (by decide) (by decide)
    · exact iff_of_false hother.2.1 hother.1
  argumentSeparator c := by
    rcases cycleSeparators_cases c with ⟨rfl, h⟩ | ⟨rfl, h⟩ | ⟨rfl, h⟩ | ⟨hother, h⟩ <;> rw [h]
    · exact iff_of_false (by decide) (by decide)
    · exact iff_of_true rfl rfl
    · exact iff_of_false (by decide) (by decide)
    · exact iff_of_false hother.2.2 hother.2.1

/-! ## Names -/

variable {p : Punctuation}

section Names

variable {f : Char → Char} {chars : List Char} {lexeme : Lexeme}

theorem respell_of_readNumber? {s : Char} (h : readNumber? s chars = some lexeme) :
    lexeme.kind.respell f = lexeme.kind := by
  unfold readNumber? at h
  split at h
  · cases h
  · split at h
    · rename_i hkind
      cases h
      exact respell_of_numberKind? f hkind
    · cases h

theorem respell_of_readSymbol? {s : Char} (h : readSymbol? s chars = some lexeme) :
    lexeme.kind.respell f = lexeme.kind := by
  unfold readSymbol? at h
  split at h
  · cases h
  · split_ifs at h
    · cases h; rfl
    · cases h; rfl
    · cases h; rfl
    · rw [readOperator?_eq, Option.map_eq_some_iff] at h
      obtain ⟨spelling, -, rfl⟩ := h
      rfl

variable (hf : ∀ c, isIdentifierPart c = true → f c = c)

include hf

theorem respell_of_readIdentifier? (h : readIdentifier? chars = some lexeme) :
    lexeme.kind.respell f = lexeme.kind := by
  cases chars with
  | nil => cases h
  | cons c rest =>
    rw [readIdentifier?] at h
    split at h
    · rename_i hstart
      have hpart := splitRun_all isIdentifierPart rest
      generalize splitRun isIdentifierPart rest = parts at h hpart
      cases h
      have hsame : (c :: parts.1).map f = c :: parts.1 := by
        refine (List.map_congr_left fun d hd => hf d ?_).trans (List.map_id' _)
        rcases List.mem_cons.mp hd with rfl | hd
        · exact isIdentifierPart_of_isIdentifierStart hstart
        · exact hpart d hd
      rw [TokenKind.respell, respell, String.toList_ofList, hsame]
    · cases h

/-- The name of a lexeme stays if the characters of names do. -/
theorem respell_of_readLexeme? (h : readLexeme? p chars = some lexeme) :
    lexeme.kind.respell f = lexeme.kind := by
  unfold readLexeme? at h
  split at h
  · rename_i hnumber
    cases h
    exact respell_of_readNumber? hnumber
  · split at h
    · rename_i hname
      cases h
      exact respell_of_readIdentifier? hf hname
    · exact respell_of_readSymbol? h

theorem Token.respell_of_tokenize {text : String} {tokens : List Token}
    (h : tokenize p text = .ok tokens) : tokens.map (Token.respell f) = tokens := by
  refine (List.map_congr_left fun token hmem => ?_).trans (List.map_id' tokens)
  obtain ⟨before, own, after, -, earlier, kind, -, hread, hkind, -⟩ :=
    exists_isReadFrom_of_tokenize h hmem
  have hsame : token.kind.respell f = token.kind := by
    rw [hkind, markedKind]
    split
    · rfl
    · exact respell_of_readLexeme? hf hread
  rw [Token.respell, hsame]

end Names

/-! ## Texts -/

/-- Maps that agree on the characters at hand respell an error in the same way. -/
theorem respell_lexicalErrorAt_congr {f g : Char → Char} {here : Position} {c : Char}
    {rest : List Char} (h : ∀ d ∈ c :: rest, f d = g d) :
    (lexicalErrorAt p here c rest).respell f = (lexicalErrorAt p here c rest).respell g := by
  rw [lexicalErrorAt]
  split
  · rw [LexicalError.respell, LexicalError.respell, respell, respell, String.toList_ofList]
    rw [List.map_congr_left fun d hd => h d ((List.takeWhile_sublist _).subset hd)]
  · rw [LexicalError.respell, LexicalError.respell, h c List.mem_cons_self]

/-- A text without semicolons, written with decimal commas, has the same tokens with
the same ranges, or it fails in the same way at the same position. -/
theorem decimal_comma_respells {text : String} (h : ';' ∉ text.toList) :
    tokenize ⟨','⟩ (respell withComma text) =
      (tokenize ⟨'.'⟩ text).mapError (LexicalError.respell withComma) := by
  have hsame : ∀ c ∈ text.toList, cycleSeparators c = withComma c := by
    intro c hc
    rw [cycleSeparators, if_neg]
    rintro rfl
    exact h hc
  have htext : respell withComma text = respell cycleSeparators text := by
    rw [respell, respell, List.map_congr_left hsame]
  rw [htext, respelling_cycleSeparators.tokenize]
  cases hread : tokenize ⟨'.'⟩ text with
  | ok tokens =>
    exact congrArg Except.ok
      (Token.respell_of_tokenize (fun _ => cycleSeparators_of_isIdentifierPart) hread)
  | error e =>
    obtain ⟨before, c, after, -, happend, -, -, -, rfl⟩ := exists_scans_of_tokenize_error hread
    refine congrArg Except.error (respell_lexicalErrorAt_congr fun d hd => hsame d ?_)
    rw [happend]
    exact List.mem_append_right before hd

/-- A call whose second argument is no number. -/
theorem decimal_comma_respells_of_call :
    ';' ∉ "max(1.5, .5)".toList ∧ respell withComma "max(1.5, .5)" = "max(1,5; ,5)" ∧
      tokenize ⟨','⟩ (respell withComma "max(1.5, .5)") =
        (tokenize ⟨'.'⟩ "max(1.5, .5)").mapError (LexicalError.respell withComma) ∧
      tokenize ⟨'.'⟩ "max(1.5, .5)" = .error (.unexpectedCharacter '.' ⟨1, 10⟩) := by
  refine ⟨?hnone, ?_, decimal_comma_respells ?hnone, ?_⟩
  case hnone => decide
  · with_unfolding_all rfl
  · with_unfolding_all rfl

end FormulaEngine
