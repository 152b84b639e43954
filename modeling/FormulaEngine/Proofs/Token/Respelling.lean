import FormulaEngine.Proofs.Token.Alphabet
import Mathlib.Data.List.Find
import Mathlib.Data.List.Forall2

/-!
# Texts that are spelled alike

Reading looks at a character only through a few questions: whether it is a
letter, a digit, an exponent mark, a separator, or one of the characters that
stand for themselves.  `Respelling` is a map of characters that changes none of
the answers, between two punctuations.

A text and its respelling are split in the same way.  The tokens have the same
kinds and ranges and the same values, and their names are respelled
(`Respelling.tokenize`).  What fails in one text fails in the other, at the same
place.  There is one lemma for each part of reading, from runs of characters to
whole texts.
-/

namespace FormulaEngine

open Text

/-- The characters that stand for themselves: symbols, gaps, the underscore. -/
def plainChars : List Char := symbolChars ++ ['_', ' ', '\t', '\r', '\n']

/-- A map of characters that keeps what reading asks about them. -/
structure Respelling (p p' : Punctuation) (f : Char → Char) : Prop where
  isAlpha : ∀ c, (f c).isAlpha = c.isAlpha
  isDigit : ∀ c, (f c).isDigit = c.isDigit
  digit : ∀ c, c.isDigit = true → f c = c
  isExponentMark : ∀ c, Decimal.isExponentMark (f c) = Decimal.isExponentMark c
  plain : ∀ d ∈ plainChars, ∀ c, f c = d ↔ c = d
  decimalSeparator : ∀ c, f c = p'.decimalSeparator ↔ c = p.decimalSeparator
  argumentSeparator : ∀ c, f c = p'.argumentSeparator ↔ c = p.argumentSeparator

/-! ## What is respelled -/

/-- A text with all its characters replaced. -/
def respell (f : Char → Char) (text : String) : String := String.ofList (text.toList.map f)

/-- A kind of token with its name respelled, if it has one. -/
def TokenKind.respell (f : Char → Char) : TokenKind → TokenKind
  | .identifier name => .identifier (FormulaEngine.respell f name)
  | kind => kind

/-- A token with its name respelled. -/
def Token.respell (f : Char → Char) (token : Token) : Token :=
  ⟨token.kind.respell f, token.range⟩

/-- A lexeme in a respelled text. -/
def Lexeme.respell (f : Char → Char) (lexeme : Lexeme) : Lexeme :=
  ⟨lexeme.kind.respell f, lexeme.text.map f, lexeme.rest.map f⟩

/-- An error of a respelled text. -/
def LexicalError.respell (f : Char → Char) : LexicalError → LexicalError
  | .unexpectedCharacter c position => .unexpectedCharacter (f c) position
  | .invalidNumber literal position => .invalidNumber (FormulaEngine.respell f literal) position

/-- A number has no name. -/
theorem respell_of_numberKind? (f : Char → Char) {s : Char} {literal : List Char}
    {kind : TokenKind} (h : numberKind? s literal = some kind) : kind.respell f = kind := by
  unfold numberKind? at h
  split at h
  · cases h
    rfl
  · split at h <;> cases h
    rfl

/-- Two parts of a text, respelled. -/
def respellBoth (f : Char → Char) (parts : List Char × List Char) : List Char × List Char :=
  (parts.1.map f, parts.2.map f)

/-- A run of a class that the map keeps. -/
theorem splitRun_map {f : Char → Char} {g : Char → Bool} (hg : ∀ c, g (f c) = g c)
    (chars : List Char) : splitRun g (chars.map f) = respellBoth f (splitRun g chars) := by
  have hcomp : g ∘ f = g := funext hg
  rw [splitRun, splitRun, List.takeWhile_map, List.dropWhile_map, hcomp]
  rfl

/-! ## Numerals -/

theorem natOfDigits?_eq_none {chars : List Char} (h : ¬∀ c ∈ chars, c.isDigit = true) :
    Decimal.natOfDigits? chars = none := by
  have hother : chars.any (fun c => !c.isDigit) = true := by simpa using h
  rw [Decimal.natOfDigits?, hother, Bool.or_true]
  rfl

/-- The same character, or two exponent marks. -/
def SameNumeral (c c' : Char) : Prop :=
  c = c' ∨ Decimal.isExponentMark c = true ∧ Decimal.isExponentMark c' = true

namespace SameNumeral

variable {c c' : Char} {chars chars' : List Char}

theorem symm (h : SameNumeral c c') : SameNumeral c' c := h.imp Eq.symm And.symm

theorem isExponentMark_eq (h : SameNumeral c c') :
    Decimal.isExponentMark c = Decimal.isExponentMark c' := by
  rcases h with rfl | ⟨hmark, hmark'⟩
  · rfl
  · rw [hmark, hmark']

theorem eq_of_not_mark (h : SameNumeral c c') (hnot : Decimal.isExponentMark c = false) :
    c = c' := by
  rcases h with heq | ⟨hmark, -⟩
  · exact heq
  · rw [hnot] at hmark
    cases hmark

theorem not_isDigit_of_isExponentMark (h : Decimal.isExponentMark c = true) :
    c.isDigit = false := by
  rw [Decimal.isExponentMark, Bool.or_eq_true, beq_iff_eq, beq_iff_eq] at h
  rcases h with rfl | rfl <;> rfl

/-- Up to the first exponent mark the characters are the same. -/
theorem splitRun_eq (h : List.Forall₂ SameNumeral chars chars') :
    (splitRun (fun c => !Decimal.isExponentMark c) chars).1 =
        (splitRun (fun c => !Decimal.isExponentMark c) chars').1 ∧
      List.Forall₂ SameNumeral (splitRun (fun c => !Decimal.isExponentMark c) chars).2
        (splitRun (fun c => !Decimal.isExponentMark c) chars').2 := by
  induction h with
  | nil => exact ⟨rfl, .nil⟩
  | @cons c c' rest rest' hc hrest ih =>
    cases hmark : Decimal.isExponentMark c with
    | true =>
      have hmark' := hc.isExponentMark_eq ▸ hmark
      simp only [splitRun, List.takeWhile_cons, List.dropWhile_cons, hmark, hmark',
        Bool.not_true, Bool.false_eq_true, if_false, true_and]
      exact .cons hc hrest
    | false =>
      cases hc.eq_of_not_mark hmark
      simpa [splitRun, hmark] using ih

theorem eq_of_digits (h : List.Forall₂ SameNumeral chars chars')
    (hdigits : ∀ c ∈ chars, c.isDigit = true) : chars = chars' := by
  induction h with
  | nil => rfl
  | @cons c c' rest rest' hc _ ih =>
    obtain ⟨hdigit, hdigits⟩ := List.forall_mem_cons.mp hdigits
    have hnot : Decimal.isExponentMark c = false := by
      rw [Bool.eq_false_iff]
      intro hmark
      rw [not_isDigit_of_isExponentMark hmark] at hdigit
      cases hdigit
    rw [hc.eq_of_not_mark hnot, ih hdigits]

theorem natOfDigits?_eq (h : List.Forall₂ SameNumeral chars chars') :
    Decimal.natOfDigits? chars = Decimal.natOfDigits? chars' := by
  by_cases hdigits : ∀ c ∈ chars, c.isDigit = true
  · rw [eq_of_digits h hdigits]
  · have hdigits' : ¬∀ c ∈ chars', c.isDigit = true := by
      intro hall
      have heq := eq_of_digits (List.Forall₂.flip (h.imp fun _ _ hc => hc.symm)) hall
      exact hdigits (heq ▸ hall)
    rw [natOfDigits?_eq_none hdigits, natOfDigits?_eq_none hdigits']

theorem ne_iff {d : Char} (hd : Decimal.isExponentMark d = false) (h : SameNumeral c c') :
    c = d ↔ c' = d := by
  constructor
  · rintro rfl
    exact (h.eq_of_not_mark hd).symm
  · rintro rfl
    rcases h with heq | ⟨-, hmark'⟩
    · exact heq
    · rw [hd] at hmark'
      cases hmark'

theorem exponentMagnitude?_eq (h : List.Forall₂ SameNumeral chars chars') :
    Decimal.exponentMagnitude? chars = Decimal.exponentMagnitude? chars' := by
  have hwhole := natOfDigits?_eq h
  cases h with
  | nil => rfl
  | @cons c c' rest rest' hc hrest =>
    have hplus := hc.ne_iff (d := '+') rfl
    by_cases hsign : c = '+'
    · have hsign' := hplus.mp hsign
      subst hsign hsign'
      rw [Decimal.exponentMagnitude?, Decimal.exponentMagnitude?, natOfDigits?_eq hrest]
    · simp [Decimal.exponentMagnitude?, hsign, hplus.not.mp hsign, hwhole]

theorem applyExponent_eq (h : List.Forall₂ SameNumeral chars chars') (d : Decimal) :
    d.applyExponent chars = d.applyExponent chars' := by
  have hwhole := exponentMagnitude?_eq h
  cases h with
  | nil => rfl
  | @cons c c' rest rest' hc hrest =>
    have hminus := hc.ne_iff (d := '-') rfl
    by_cases hsign : c = '-'
    · have hsign' := hminus.mp hsign
      subst hsign hsign'
      rw [Decimal.applyExponent, Decimal.applyExponent, exponentMagnitude?_eq hrest]
    · simp [Decimal.applyExponent, hsign, hminus.not.mp hsign, hwhole]

/-- A decimal is read the same with either exponent mark. -/
theorem readChars_eq (h : List.Forall₂ SameNumeral chars chars') :
    Decimal.readChars chars = Decimal.readChars chars' := by
  obtain ⟨hplain, hrest⟩ := splitRun_eq h
  rw [Decimal.readChars, Decimal.readChars]
  generalize splitRun (fun c => !Decimal.isExponentMark c) chars = parts at hplain hrest ⊢
  generalize splitRun (fun c => !Decimal.isExponentMark c) chars' = parts' at hplain hrest ⊢
  obtain ⟨plain, exponent⟩ := parts
  obtain ⟨plain', exponent'⟩ := parts'
  dsimp only at hplain hrest
  subst hplain
  cases hrest with
  | nil => rfl
  | cons _ hrest =>
    dsimp only
    cases Decimal.readPlain plain with
    | error e => rfl
    | ok d => exact applyExponent_eq hrest d

end SameNumeral

/-! ## Operators -/

/-- The spellings of the binary operators, the longer ones first. -/
def operatorSpellings : List (List Char × BinaryOp) :=
  [(['&', '&'], .and), (['|', '|'], .or), (['<', '='], .lessOrEqual),
    (['>', '='], .greaterOrEqual), (['!', '='], .notEqual), (['=', '='], .equal), (['+'], .add),
    (['-'], .subtract), (['*'], .multiply), (['/'], .divide), (['%'], .modulo), (['^'], .power),
    (['&'], .and), (['|'], .or), (['≤'], .lessOrEqual), (['<'], .lessThan),
    (['≥'], .greaterOrEqual), (['>'], .greaterThan), (['≠'], .notEqual), (['='], .equal)]

/-- The operator at the start of a text is the first one with such a
spelling. -/
theorem readOperator?_eq (chars : List Char) :
    readOperator? chars =
      (operatorSpellings.find? fun spelling => spelling.1.isPrefixOf chars).map fun spelling =>
        ⟨.operator (.binary spelling.2), spelling.1, chars.drop spelling.1.length⟩ := by
  unfold readOperator?
  split
  case h_21 =>
    have hnone :
        (operatorSpellings.find? fun spelling => spelling.1.isPrefixOf chars) = none := by
      rw [List.find?_eq_none]
      intro spelling hmem hprefix
      obtain ⟨rest, rfl⟩ := List.isPrefixOf_iff_prefix.mp hprefix
      simp only [operatorSpellings, List.mem_cons, List.not_mem_nil, or_false] at hmem
      rcases hmem with rfl | rfl | rfl | rfl | rfl | rfl | rfl | rfl | rfl | rfl | rfl | rfl | rfl |
        rfl | rfl | rfl | rfl | rfl | rfl | rfl <;> solve_by_elim [rfl]
    rw [hnone]
    rfl
  all_goals try rfl
  -- One character that begins two spellings, and not the second one of the longer.
  all_goals
    rename_i rest hne
    rcases rest with _ | ⟨d, rest⟩
    · rfl
    · have hd : d ≠ _ := fun h => hne rest (congrArg (· :: rest) h)
      have hd' := beq_eq_false_iff_ne.mpr hd.symm
      simp [operatorSpellings, binaryLexeme, List.isPrefixOf, hd']

namespace Respelling

variable {p p' : Punctuation} {f : Char → Char} (h : Respelling p p' f)

include h

/-! ## Characters -/

theorem eq_of_plain {c : Char} (hc : c ∈ plainChars) : f c = c := (h.plain c hc c).mpr rfl

theorem isAlphanum (c : Char) : (f c).isAlphanum = c.isAlphanum := by
  rw [Char.isAlphanum, Char.isAlphanum, h.isAlpha, h.isDigit]

theorem beq_plain {d : Char} (hd : d ∈ plainChars) (c : Char) : (f c == d) = (c == d) := by
  rw [Bool.eq_iff_iff, beq_iff_eq, beq_iff_eq]
  exact h.plain d hd c

theorem isIdentifierStart (c : Char) :
    FormulaEngine.isIdentifierStart (f c) = FormulaEngine.isIdentifierStart c := by
  rw [FormulaEngine.isIdentifierStart, FormulaEngine.isIdentifierStart, h.isAlpha,
    h.beq_plain (by decide)]

theorem isIdentifierPart (c : Char) :
    FormulaEngine.isIdentifierPart (f c) = FormulaEngine.isIdentifierPart c := by
  rw [FormulaEngine.isIdentifierPart, FormulaEngine.isIdentifierPart, h.isAlphanum,
    h.beq_plain (by decide)]

theorem isGap (c : Char) : Text.isGap (f c) = Text.isGap c := by
  rw [Text.isGap, Text.isGap, h.beq_plain (by decide), h.beq_plain (by decide),
    h.beq_plain (by decide), h.beq_plain (by decide)]

theorem after (here : Position) (c : Char) : here.after (f c) = here.after c := by
  have hnewline := h.plain '\n' (by decide) c
  by_cases hc : c = '\n'
  · rw [hnewline.mpr hc, hc]
  · rw [Position.after, Position.after, if_neg hc, if_neg (hnewline.not.mpr hc)]

theorem afterAll (here : Position) (chars : List Char) :
    here.afterAll (chars.map f) = here.afterAll chars := by
  rw [Position.afterAll, Position.afterAll, List.foldl_map]
  simp only [h.after]

/-! ## Numbers -/

theorem splitFraction (chars : List Char) :
    FormulaEngine.splitFraction p'.decimalSeparator (chars.map f) =
      respellBoth f (FormulaEngine.splitFraction p.decimalSeparator chars) := by
  cases chars with
  | nil => rfl
  | cons c rest =>
    rw [List.map_cons, FormulaEngine.splitFraction, FormulaEngine.splitFraction,
      splitRun_map h.isDigit]
    by_cases hc : c = p.decimalSeparator
    · rw [if_pos hc, if_pos ((h.decimalSeparator c).mpr hc)]
      obtain ⟨digits, after⟩ := Text.splitRun Char.isDigit rest
      cases digits <;> rfl
    · rw [if_neg hc, if_neg ((h.decimalSeparator c).not.mpr hc)]
      rfl

theorem splitOptionalSign (chars : List Char) :
    FormulaEngine.splitOptionalSign (chars.map f) =
      respellBoth f (FormulaEngine.splitOptionalSign chars) := by
  cases chars with
  | nil => rfl
  | cons c rest =>
    by_cases hplus : c = '+'
    · simp [FormulaEngine.splitOptionalSign, respellBoth, hplus, h.eq_of_plain (c := '+') (by decide)]
    · by_cases hminus : c = '-'
      · simp [FormulaEngine.splitOptionalSign, respellBoth, hminus,
          h.eq_of_plain (c := '-') (by decide)]
      · have hplus' : f c ≠ '+' := (h.plain '+' (by decide) c).not.mpr hplus
        have hminus' : f c ≠ '-' := (h.plain '-' (by decide) c).not.mpr hminus
        simp [FormulaEngine.splitOptionalSign, respellBoth, hplus, hminus, hplus', hminus']

theorem splitExponent (chars : List Char) :
    FormulaEngine.splitExponent (chars.map f) =
      respellBoth f (FormulaEngine.splitExponent chars) := by
  cases chars with
  | nil => rfl
  | cons c rest =>
    rw [List.map_cons, FormulaEngine.splitExponent, FormulaEngine.splitExponent,
      h.isExponentMark, h.splitOptionalSign]
    split
    · dsimp only [respellBoth]
      rw [splitRun_map h.isDigit]
      generalize FormulaEngine.splitOptionalSign rest = signed
      generalize Text.splitRun Char.isDigit signed.2 = digits
      obtain ⟨digits, after⟩ := digits
      cases digits <;> simp [respellBoth]
    · rfl

theorem splitNumber (chars : List Char) :
    FormulaEngine.splitNumber p'.decimalSeparator (chars.map f) =
      respellBoth f (FormulaEngine.splitNumber p.decimalSeparator chars) := by
  rw [FormulaEngine.splitNumber, FormulaEngine.splitNumber, splitRun_map h.isDigit]
  generalize Text.splitRun Char.isDigit chars = whole
  obtain ⟨digits, afterWhole⟩ := whole
  cases digits with
  | nil => rfl
  | cons digit digits =>
    simp only [respellBoth, List.map_cons, h.splitFraction, h.splitExponent, List.map_append,
      List.cons_append]

theorem natOfDigits? (chars : List Char) :
    Decimal.natOfDigits? (chars.map f) = Decimal.natOfDigits? chars := by
  by_cases hdigits : ∀ c ∈ chars, c.isDigit = true
  · have heq : chars.map f = chars :=
      (List.map_congr_left fun c hc => h.digit c (hdigits c hc)).trans (List.map_id' chars)
    rw [heq]
  · have hdigits' : ¬∀ c ∈ chars.map f, c.isDigit = true := by simpa [h.isDigit] using hdigits
    rw [natOfDigits?_eq_none hdigits, natOfDigits?_eq_none hdigits']

theorem integerValue? (literal : List Char) :
    FormulaEngine.integerValue? p'.decimalSeparator (literal.map f) =
      FormulaEngine.integerValue? p.decimalSeparator literal := by
  have hmark : ((fun c => c == p'.decimalSeparator || Decimal.isExponentMark c) ∘ f) =
      fun c => c == p.decimalSeparator || Decimal.isExponentMark c := by
    funext c
    have hseparator : (f c == p'.decimalSeparator) = (c == p.decimalSeparator) := by
      rw [Bool.eq_iff_iff, beq_iff_eq, beq_iff_eq]
      exact h.decimalSeparator c
    rw [Function.comp_apply, hseparator, h.isExponentMark]
  rw [FormulaEngine.integerValue?, FormulaEngine.integerValue?, List.any_map, hmark,
    h.natOfDigits?]

/-- A literal and its respelling stand for the same number. -/
theorem numberKind? {literal : List Char}
    (hnumeric : ∀ c ∈ literal, IsNumeric p.decimalSeparator c) :
    FormulaEngine.numberKind? p'.decimalSeparator (literal.map f) =
      FormulaEngine.numberKind? p.decimalSeparator literal := by
  have hsame : List.Forall₂ SameNumeral
      ((literal.map f).map fun c => if c = p'.decimalSeparator then '.' else c)
      (literal.map fun c => if c = p.decimalSeparator then '.' else c) := by
    rw [List.map_map, List.forall₂_map_left_iff, List.forall₂_map_right_iff, List.forall₂_same]
    intro c hc
    rw [Function.comp_apply]
    simp only [h.decimalSeparator]
    split
    · exact .inl rfl
    · rcases hnumeric c hc with hdigit | hseparator | hmark | rfl | rfl
      · exact .inl (h.digit c hdigit)
      · contradiction
      · exact .inr ⟨(h.isExponentMark c).trans hmark, hmark⟩
      · exact .inl (h.eq_of_plain (by decide))
      · exact .inl (h.eq_of_plain (by decide))
  rw [FormulaEngine.numberKind?, FormulaEngine.numberKind?, h.integerValue?,
    SameNumeral.readChars_eq hsame]

theorem readNumber? (chars : List Char) :
    FormulaEngine.readNumber? p'.decimalSeparator (chars.map f) =
      (FormulaEngine.readNumber? p.decimalSeparator chars).map (Lexeme.respell f) := by
  have hnumeric : ∀ c ∈ (FormulaEngine.splitNumber p.decimalSeparator chars).1,
      IsNumeric p.decimalSeparator c := fun _ => isNumeric_of_mem_splitNumber
  rw [FormulaEngine.readNumber?, FormulaEngine.readNumber?, h.splitNumber]
  generalize FormulaEngine.splitNumber p.decimalSeparator chars = parts at hnumeric ⊢
  obtain ⟨literal, after⟩ := parts
  cases literal with
  | nil => rfl
  | cons c literal =>
    have hkind := h.numberKind? hnumeric
    rw [List.map_cons] at hkind
    simp only [respellBoth, List.map_cons, hkind]
    cases hread : FormulaEngine.numberKind? p.decimalSeparator (c :: literal) with
    | none => rfl
    | some kind =>
      rw [Option.map_some, Lexeme.respell, respell_of_numberKind? f hread]
      rfl

/-! ## Identifiers and symbols -/

theorem readIdentifier? (chars : List Char) :
    FormulaEngine.readIdentifier? (chars.map f) =
      (FormulaEngine.readIdentifier? chars).map (Lexeme.respell f) := by
  cases chars with
  | nil => rfl
  | cons c rest =>
    rw [List.map_cons, FormulaEngine.readIdentifier?, FormulaEngine.readIdentifier?,
      h.isIdentifierStart, splitRun_map h.isIdentifierPart]
    split
    · simp [respellBoth, Lexeme.respell, TokenKind.respell, respell]
    · rfl

theorem isPrefixOf {text : List Char} (htext : ∀ d ∈ text, d ∈ plainChars) (chars : List Char) :
    text.isPrefixOf (chars.map f) = text.isPrefixOf chars := by
  induction text generalizing chars with
  | nil => simp
  | cons d text ih =>
    obtain ⟨hd, htext⟩ := List.forall_mem_cons.mp htext
    cases chars with
    | nil => rfl
    | cons c chars =>
      have hbeq : (d == f c) = (d == c) := by
        rw [Bool.beq_comm, h.beq_plain hd, Bool.beq_comm]
      rw [List.map_cons, List.isPrefixOf, List.isPrefixOf, hbeq, ih htext]

theorem readOperator? (chars : List Char) :
    FormulaEngine.readOperator? (chars.map f) =
      (FormulaEngine.readOperator? chars).map (Lexeme.respell f) := by
  have hall : (operatorSpellings.all fun spelling =>
      spelling.1.all plainChars.contains) = true := by decide
  have hplain : ∀ spelling ∈ operatorSpellings, ∀ d ∈ spelling.1, d ∈ plainChars :=
    fun spelling hmem d hd =>
      List.contains_iff_mem.mp (List.all_eq_true.mp (List.all_eq_true.mp hall spelling hmem) d hd)
  have hfind : (operatorSpellings.find? fun spelling => spelling.1.isPrefixOf (chars.map f)) =
      operatorSpellings.find? fun spelling => spelling.1.isPrefixOf chars :=
    List.find?_congr fun spelling hmem => h.isPrefixOf (hplain spelling hmem) chars
  rw [readOperator?_eq, readOperator?_eq, hfind]
  cases hfound : operatorSpellings.find? fun spelling => spelling.1.isPrefixOf chars with
  | none => rfl
  | some spelling =>
    have hmem := List.mem_of_find?_eq_some hfound
    have htext : spelling.1.map f = spelling.1 :=
      (List.map_congr_left fun d hd => h.eq_of_plain (hplain spelling hmem d hd)).trans
        (List.map_id' spelling.1)
    simp [Lexeme.respell, TokenKind.respell, htext, List.map_drop]

theorem readSymbol? (chars : List Char) :
    FormulaEngine.readSymbol? p'.argumentSeparator (chars.map f) =
      (FormulaEngine.readSymbol? p.argumentSeparator chars).map (Lexeme.respell f) := by
  cases chars with
  | nil => rfl
  | cons c rest =>
    have hopen := h.plain '(' (by decide) c
    have hclose := h.plain ')' (by decide) c
    have hseparator := h.argumentSeparator c
    rw [List.map_cons, FormulaEngine.readSymbol?, FormulaEngine.readSymbol?]
    simp only [hopen, hclose, hseparator]
    split_ifs
    · rfl
    · rfl
    · rfl
    · exact h.readOperator? (c :: rest)

/-! ## Texts -/

theorem readLexeme? (chars : List Char) :
    FormulaEngine.readLexeme? p' (chars.map f) =
      (FormulaEngine.readLexeme? p chars).map (Lexeme.respell f) := by
  rw [FormulaEngine.readLexeme?, FormulaEngine.readLexeme?, h.readNumber?, h.readIdentifier?,
    h.readSymbol?]
  cases FormulaEngine.readNumber? p.decimalSeparator chars with
  | some lexeme => rfl
  | none => cases FormulaEngine.readIdentifier? chars <;> rfl

theorem readLexeme?_of_some {c : Char} {rest : List Char} {lexeme : Lexeme}
    (hlexeme : FormulaEngine.readLexeme? p (c :: rest) = some lexeme) :
    FormulaEngine.readLexeme? p' (f c :: rest.map f) = some (lexeme.respell f) := by
  rw [← List.map_cons, h.readLexeme?, hlexeme]
  rfl

theorem lexicalErrorAt (here : Position) (c : Char) (rest : List Char) :
    FormulaEngine.lexicalErrorAt p' here (f c) (rest.map f) =
      (FormulaEngine.lexicalErrorAt p here c rest).respell f := by
  have hliteral : ((fun x => x.isAlphanum || x == p'.decimalSeparator) ∘ f) =
      fun x => x.isAlphanum || x == p.decimalSeparator := by
    funext x
    have hseparator : (f x == p'.decimalSeparator) = (x == p.decimalSeparator) := by
      rw [Bool.eq_iff_iff, beq_iff_eq, beq_iff_eq]
      exact h.decimalSeparator x
    rw [Function.comp_apply, hseparator, h.isAlphanum]
  rw [FormulaEngine.lexicalErrorAt, FormulaEngine.lexicalErrorAt, h.isDigit, ← List.map_cons,
    List.takeWhile_map, hliteral]
  split
  · simp [LexicalError.respell, respell]
  · rfl

theorem readTokens (here : Position) (chars : List Char) :
    FormulaEngine.readTokens p' here (chars.map f) =
      ((FormulaEngine.readTokens p here chars).map (List.map (Token.respell f))).mapError
        (LexicalError.respell f) := by
  induction here, chars using readTokens.induct (p := p) with
  | case1 here =>
    rw [List.map_nil, FormulaEngine.readTokens, FormulaEngine.readTokens]
    rfl
  | case2 here c rest hgap ih =>
    rw [List.map_cons, FormulaEngine.readTokens, FormulaEngine.readTokens, if_pos hgap,
      if_pos ((h.isGap c).trans hgap), h.after, ih]
  | case3 here c rest hgap hnone =>
    have hnone' : FormulaEngine.readLexeme? p' (f c :: rest.map f) = none := by
      rw [← List.map_cons, h.readLexeme?, hnone]
      rfl
    rw [List.map_cons, readTokens_of_none hgap hnone,
      readTokens_of_none (h.isGap c ▸ hgap) hnone', h.lexicalErrorAt]
    rfl
  | case4 here c rest hgap lexeme hlexeme e hrest ih =>
    rw [List.map_cons, readTokens_of_lexeme hgap hlexeme, readTokens_of_lexeme
      (h.isGap c ▸ hgap) (h.readLexeme?_of_some hlexeme), hrest]
    dsimp only [Lexeme.respell]
    rw [h.afterAll, ih, hrest]
    rfl
  | case5 here c rest hgap lexeme hlexeme others hothers ih =>
    rw [List.map_cons, readTokens_of_lexeme hgap hlexeme, readTokens_of_lexeme
      (h.isGap c ▸ hgap) (h.readLexeme?_of_some hlexeme), hothers]
    dsimp only [Lexeme.respell]
    rw [h.afterAll, ih, hothers, List.length_map]
    rfl

end Respelling

/-! ## Unary minus signs -/

theorem operandFollows_respell (f : Char → Char) (previous : Option TokenKind) :
    operandFollows (previous.map (TokenKind.respell f)) = operandFollows previous := by
  cases previous with
  | none => rfl
  | some kind => cases kind <;> rfl

theorem markedKind_respell (f : Char → Char) (previous : Option TokenKind) (kind : TokenKind) :
    markedKind (previous.map (TokenKind.respell f)) (kind.respell f) =
      (markedKind previous kind).respell f := by
  have hsubtract : kind.respell f = .operator (.binary .subtract) ↔
      kind = .operator (.binary .subtract) := by
    cases kind <;> simp [TokenKind.respell]
  simp only [markedKind, operandFollows_respell, hsubtract]
  split <;> rfl

theorem markNegations_respell (f : Char → Char) (previous : Option TokenKind)
    (tokens : List Token) :
    markNegations (previous.map (TokenKind.respell f)) (tokens.map (Token.respell f)) =
      (markNegations previous tokens).map (Token.respell f) := by
  induction tokens generalizing previous with
  | nil => rfl
  | cons token tokens ih =>
    have hrest := ih (some (markedKind previous token.kind))
    rw [Option.map_some] at hrest
    rw [List.map_cons, markNegations, markNegations, List.map_cons]
    dsimp only [Token.respell]
    rw [markedKind_respell, hrest]

/-- A text and its respelling have the same tokens, but for their names. -/
theorem Respelling.tokenize {p p' : Punctuation} {f : Char → Char} (h : Respelling p p' f)
    (text : String) :
    FormulaEngine.tokenize p' (respell f text) =
      ((FormulaEngine.tokenize p text).map (List.map (Token.respell f))).mapError
        (LexicalError.respell f) := by
  rw [FormulaEngine.tokenize, FormulaEngine.tokenize, respell, String.toList_ofList, h.readTokens]
  cases FormulaEngine.readTokens p .first text.toList with
  | error e => rfl
  | ok tokens => exact congrArg Except.ok (markNegations_respell f none tokens)

end FormulaEngine
