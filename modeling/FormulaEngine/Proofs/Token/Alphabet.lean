import FormulaEngine.Token.Reader
import Mathlib.Tactic.Common

/-!
# The characters of formulas

A text is split into tokens only if its characters are all of one alphabet:
gaps, letters, digits and the underscore, operators and brackets, and the two
characters that the punctuation chooses.

* `writes_of_readLexeme?` is the statement for one lexeme, in which there are
  no gaps, and `admits_of_tokenize` for a whole text.
* `notMem_of_tokenize`: of two foreign characters, which are in no alphabet
  unless chosen, a text has one at most.
-/

namespace FormulaEngine

open Text

/-! ## The alphabet -/

theorem isIdentifierPart_of_isDigit {c : Char} (h : c.isDigit = true) :
    isIdentifierPart c = true := by
  rw [isIdentifierPart, Char.isAlphanum, h, Bool.or_true]
  rfl

theorem isIdentifierPart_of_isExponentMark {c : Char} (h : Decimal.isExponentMark c = true) :
    isIdentifierPart c = true := by
  rw [Decimal.isExponentMark, Bool.or_eq_true, beq_iff_eq, beq_iff_eq] at h
  rcases h with rfl | rfl <;> rfl

theorem isIdentifierPart_of_isIdentifierStart {c : Char} (h : isIdentifierStart c = true) :
    isIdentifierPart c = true := by
  rw [isIdentifierStart, Bool.or_eq_true] at h
  rw [isIdentifierPart, Char.isAlphanum, Bool.or_eq_true, Bool.or_eq_true]
  exact h.imp_left .inl

/-- The characters of operators and brackets. -/
def symbolChars : List Char :=
  ['(', ')', '+', '-', '*', '/', '%', '^', '&', '|', '<', '>', '=', '!', '≤', '≥', '≠']

/-- The alphabet of formulas under a punctuation. -/
def Punctuation.Admits (p : Punctuation) (c : Char) : Prop :=
  isGap c = true ∨ isIdentifierPart c = true ∨ c ∈ symbolChars ∨
    c = p.decimalSeparator ∨ c = p.argumentSeparator

/-- The characters of an alphabet that are no gaps. -/
def Punctuation.Writes (p : Punctuation) (c : Char) : Prop :=
  isIdentifierPart c = true ∨ c ∈ symbolChars ∨ c = p.decimalSeparator ∨ c = p.argumentSeparator

variable {p : Punctuation}

namespace Punctuation

theorem argumentSeparator_eq (p : Punctuation) :
    p.argumentSeparator = ',' ∨ p.argumentSeparator = ';' := by
  rw [argumentSeparator]
  split
  · exact .inr rfl
  · exact .inl rfl

theorem Writes.admits {c : Char} (h : p.Writes c) : p.Admits c := .inr h

theorem writes_of_mem_symbolChars {c : Char} (h : c ∈ symbolChars) : p.Writes c :=
  .inr (.inl h)

end Punctuation

open Punctuation

/-! ## Lexemes -/

/-- The characters of number literals. -/
def IsNumeric (decimalSeparator c : Char) : Prop :=
  c.isDigit = true ∨ c = decimalSeparator ∨ Decimal.isExponentMark c = true ∨ c = '+' ∨ c = '-'

theorem isNumeric_of_mem_splitFraction {s : Char} {chars : List Char} {c : Char}
    (h : c ∈ (splitFraction s chars).1) : IsNumeric s c := by
  cases chars with
  | nil => cases h
  | cons d rest =>
    rw [splitFraction] at h
    have hdigits := splitRun_all Char.isDigit rest
    split at h
    · rename_i hseparator
      split at h
      · cases h
      · rename_i heq
        rw [heq] at hdigits
        rcases List.mem_cons.mp h with rfl | hdigit
        · exact .inr (.inl hseparator)
        · exact .inl (hdigits c hdigit)
    · cases h

theorem mem_splitOptionalSign {chars : List Char} {c : Char}
    (h : c ∈ (splitOptionalSign chars).1) : c = '+' ∨ c = '-' := by
  unfold splitOptionalSign at h
  split at h
  · exact .inl (List.mem_singleton.mp h)
  · exact .inr (List.mem_singleton.mp h)
  · cases h

theorem isNumeric_of_mem_splitExponent {s : Char} {chars : List Char} {c : Char}
    (h : c ∈ (splitExponent chars).1) : IsNumeric s c := by
  cases chars with
  | nil => cases h
  | cons d rest =>
    rw [splitExponent] at h
    have hdigits := splitRun_all Char.isDigit (splitOptionalSign rest).2
    split at h
    · rename_i hmark
      dsimp only at h
      split at h
      · cases h
      · rename_i heq
        rw [heq] at hdigits
        rcases List.mem_cons.mp h with rfl | htail
        · exact .inr (.inr (.inl hmark))
        · rcases List.mem_append.mp htail with hsign | hdigit
          · exact .inr (.inr (.inr (mem_splitOptionalSign hsign)))
          · exact .inl (hdigits c hdigit)
    · cases h

theorem isNumeric_of_mem_splitNumber {s : Char} {chars : List Char} {c : Char}
    (h : c ∈ (splitNumber s chars).1) : IsNumeric s c := by
  have hwhole := splitRun_all Char.isDigit chars
  rw [splitNumber] at h
  split at h
  · cases h
  · rename_i heq
    rw [heq] at hwhole
    rcases List.mem_append.mp h with hleft | hexponent
    · rcases List.mem_append.mp hleft with hdigit | hfraction
      · exact .inl (hwhole c hdigit)
      · exact isNumeric_of_mem_splitFraction hfraction
    · exact isNumeric_of_mem_splitExponent hexponent

theorem IsNumeric.writes {c : Char} (h : IsNumeric p.decimalSeparator c) : p.Writes c := by
  rcases h with hdigit | hseparator | hmark | rfl | rfl
  · exact .inl (isIdentifierPart_of_isDigit hdigit)
  · exact .inr (.inr (.inl hseparator))
  · exact .inl (isIdentifierPart_of_isExponentMark hmark)
  · exact .inr (.inl (by decide))
  · exact .inr (.inl (by decide))

theorem writes_of_readNumber? {chars : List Char} {lexeme : Lexeme}
    (h : readNumber? p.decimalSeparator chars = some lexeme) : ∀ c ∈ lexeme.text, p.Writes c := by
  rw [readNumber?] at h
  split at h
  · cases h
  · rename_i hsplit
    split at h
    · cases h
      intro c hc
      have hmem : c ∈ (splitNumber p.decimalSeparator chars).1 := by
        rw [hsplit]
        exact hc
      exact (isNumeric_of_mem_splitNumber hmem).writes
    · cases h

theorem writes_of_readIdentifier? {chars : List Char} {lexeme : Lexeme}
    (h : readIdentifier? chars = some lexeme) : ∀ c ∈ lexeme.text, p.Writes c := by
  unfold readIdentifier? at h
  split at h
  · cases h
  · rename_i d rest
    split at h
    · rename_i hstart
      cases h
      intro c hc
      rcases List.mem_cons.mp hc with rfl | hpart
      · exact .inl (isIdentifierPart_of_isIdentifierStart hstart)
      · exact .inl (splitRun_all isIdentifierPart rest c hpart)
    · cases h

theorem mem_symbolChars_of_readOperator? {chars : List Char} {lexeme : Lexeme}
    (h : readOperator? chars = some lexeme) : ∀ c ∈ lexeme.text, c ∈ symbolChars := by
  have hall : lexeme.text.all symbolChars.contains = true := by
    unfold readOperator? at h
    split at h <;> first | (cases h; rfl) | exact nomatch h
  intro c hc
  exact List.contains_iff_mem.mp (List.all_eq_true.mp hall c hc)

theorem writes_of_readSymbol? {chars : List Char} {lexeme : Lexeme}
    (h : readSymbol? p.argumentSeparator chars = some lexeme) :
    ∀ c ∈ lexeme.text, p.Writes c := by
  unfold readSymbol? at h
  split at h
  · cases h
  · rename_i d rest
    split_ifs at h with hopen hclose hseparator
    · cases h
      exact List.forall_mem_singleton.mpr (writes_of_mem_symbolChars (hopen ▸ by decide))
    · cases h
      exact List.forall_mem_singleton.mpr (writes_of_mem_symbolChars (hclose ▸ by decide))
    · cases h
      exact List.forall_mem_singleton.mpr (.inr (.inr (.inr hseparator)))
    · exact fun c hc => writes_of_mem_symbolChars (mem_symbolChars_of_readOperator? h c hc)

/-- The characters of a lexeme are of the alphabet, and no gaps. -/
theorem writes_of_readLexeme? {chars : List Char} {lexeme : Lexeme}
    (h : readLexeme? p chars = some lexeme) : ∀ c ∈ lexeme.text, p.Writes c := by
  unfold readLexeme? at h
  split at h
  · rename_i hnumber
    cases h
    exact writes_of_readNumber? hnumber
  · split at h
    · rename_i hidentifier
      cases h
      exact writes_of_readIdentifier? hidentifier
    · exact writes_of_readSymbol? h

/-! ## Texts -/

/-- Reading stops at a character that starts no lexeme. -/
theorem readTokens_of_none {here : Position} {c : Char} {rest : List Char}
    (hgap : ¬isGap c = true) (hnone : readLexeme? p (c :: rest) = none) :
    readTokens p here (c :: rest) = .error (lexicalErrorAt p here c rest) := by
  rw [readTokens, if_neg hgap]
  split
  · rfl
  · rename_i hsome
    rw [hnone] at hsome
    cases hsome

/-- A lexeme is the next token. -/
theorem readTokens_of_lexeme {here : Position} {c : Char} {rest : List Char} {lexeme : Lexeme}
    (hgap : ¬isGap c = true) (hlexeme : readLexeme? p (c :: rest) = some lexeme) :
    readTokens p here (c :: rest) =
      (readTokens p (here.afterAll lexeme.text) lexeme.rest).map
        (⟨lexeme.kind, Range.onLine here lexeme.text.length⟩ :: ·) := by
  rw [readTokens, if_neg hgap]
  split
  · rename_i hnone
    rw [hlexeme] at hnone
    cases hnone
  · rename_i found hfound
    rw [hlexeme] at hfound
    cases hfound
    cases readTokens p (here.afterAll lexeme.text) lexeme.rest <;> rfl

/-- The characters of a text that is split into tokens are of the alphabet. -/
theorem admits_of_readTokens {position : Position} {chars : List Char} {tokens : List Token}
    (h : readTokens p position chars = .ok tokens) : ∀ c ∈ chars, p.Admits c := by
  induction position, chars using readTokens.induct (p := p) generalizing tokens with
  | case1 => nofun
  | case2 position d rest hgap ih =>
    rw [readTokens, if_pos hgap] at h
    exact List.forall_mem_cons.mpr ⟨.inl hgap, ih h⟩
  | case3 position d rest hgap hnone =>
    rw [readTokens_of_none hgap hnone] at h
    cases h
  | case4 position d rest hgap lexeme hlexeme error hrest ih =>
    rw [readTokens_of_lexeme hgap hlexeme, hrest] at h
    cases h
  | case5 position d rest hgap lexeme hlexeme others hrest ih =>
    have happend := (readLexeme?_splits hlexeme).2
    rw [← happend, List.forall_mem_append]
    exact ⟨fun c hc => (writes_of_readLexeme? hlexeme c hc).admits, ih hrest⟩

theorem admits_of_tokenize {text : String} {tokens : List Token}
    (h : tokenize p text = .ok tokens) : ∀ c ∈ text.toList, p.Admits c := by
  rw [tokenize] at h
  split at h
  · cases h
  · rename_i hread
    exact admits_of_readTokens hread

/-- A character that is in an alphabet only if the punctuation chooses it as
the decimal separator. -/
def IsForeign (c : Char) : Prop :=
  isGap c = false ∧ isIdentifierPart c = false ∧ c ∉ symbolChars ∧ c ≠ ',' ∧ c ≠ ';'

instance (c : Char) : Decidable (IsForeign c) := inferInstanceAs (Decidable (_ ∧ _))

theorem eq_decimalSeparator_of_isForeign {c : Char} (hforeign : IsForeign c) (h : p.Admits c) :
    c = p.decimalSeparator := by
  obtain ⟨hgap, hpart, hsymbol, hcomma, hsemicolon⟩ := hforeign
  rcases h with hadmits | hadmits | hadmits | hadmits | hadmits
  · rw [hgap] at hadmits
    cases hadmits
  · rw [hpart] at hadmits
    cases hadmits
  · exact absurd hadmits hsymbol
  · exact hadmits
  · rcases p.argumentSeparator_eq with heq | heq
    · exact absurd (hadmits.trans heq) hcomma
    · exact absurd (hadmits.trans heq) hsemicolon

/-- A text that is split into tokens has one foreign character at most. -/
theorem notMem_of_tokenize {text : String} {tokens : List Token} {c d : Char}
    (hc : IsForeign c) (hd : IsForeign d) (hne : c ≠ d) (h : tokenize p text = .ok tokens) :
    c ∉ text.toList ∨ d ∉ text.toList := by
  by_cases hmem : c ∈ text.toList
  · right
    intro hmem'
    have hfirst := eq_decimalSeparator_of_isForeign hc (admits_of_tokenize h c hmem)
    have hsecond := eq_decimalSeparator_of_isForeign hd (admits_of_tokenize h d hmem')
    exact hne (hfirst.trans hsecond.symm)
  · exact .inl hmem

end FormulaEngine
