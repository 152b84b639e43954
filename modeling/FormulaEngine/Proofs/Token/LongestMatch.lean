import FormulaEngine.Proofs.Token.Coverage

/-!
# Lexemes are longest pieces

What a text can consist of is said here without the readers: a piece is a number
literal, an identifier, or a bracket, separator or operator (`IsPiece`).  A lexeme
is the longest piece at the start of a text, if that piece stands for something.

* `IsLongest` is the longest beginning of a text with a property.  It stays the
  longest one in every text between it and the first text
  (`IsLongest.of_isPrefix`), and what comes behind it cannot go on with it
  (`IsLongest.eq_nil_of_extended`).
* `splitNumber_of_isLongest`, `readIdentifier?_of_isLongest` and
  `readSymbol?_of_isLongest` are the readers of the three classes.
* `readLexeme?_of_isLongest` and `readLexeme?_of_noPiece` say what is read at the
  start of any text, and `readLexeme?_eq_some_iff` says it in one sentence.
* `isLongest_of_isPiece`: a piece with a gap behind it is the longest one.
-/

namespace FormulaEngine

open Text

/-! ## Longest beginnings -/

/-- The longest beginning of a text with a property. -/
structure IsLongest (P : List Char → Prop) (piece chars : List Char) : Prop where
  holds : P piece
  isPrefix : piece <+: chars
  length_le : ∀ other, P other → other <+: chars → other.length ≤ piece.length

namespace IsLongest

variable {P : List Char → Prop} {piece chars chars' rest : List Char}

/-- A shorter text that still begins with the piece has no longer ones. -/
theorem of_isPrefix (h : IsLongest P piece chars) (hpiece : piece <+: chars')
    (hchars : chars' <+: chars) : IsLongest P piece chars' :=
  ⟨h.holds, hpiece, fun other hother hinitial =>
    h.length_le other hother (hinitial.trans hchars)⟩

theorem mono {Q : List Char → Prop} (h : IsLongest P piece chars) (hpiece : Q piece)
    (hQ : ∀ other, Q other → P other) : IsLongest Q piece chars :=
  ⟨hpiece, h.isPrefix, fun other hother => h.length_le other (hQ other hother)⟩

/-- What comes next does not make a longer piece. -/
theorem eq_nil_of_extended (h : IsLongest P piece (piece ++ rest)) {more : List Char}
    (hmore : more <+: rest) (hlonger : P (piece ++ more)) : more = [] := by
  have hle := h.length_le _ hlonger ((List.prefix_append_right_inj piece).mpr hmore)
  rw [List.length_append] at hle
  exact List.eq_nil_of_length_eq_zero (by omega)

theorem not_extended (h : IsLongest P piece (piece ++ rest)) {c : Char} (hc : c ∈ rest.head?) :
    ¬P (piece ++ [c]) := by
  intro hlonger
  have hnext : [c] <+: rest := ⟨rest.tail, (List.eq_cons_of_mem_head? hc).symm⟩
  exact nomatch h.eq_nil_of_extended hnext hlonger

end IsLongest

/-- Among the beginnings with a property there is a longest one. -/
theorem exists_isLongest {P : List Char → Prop} {piece chars : List Char} (hP : P piece)
    (hpiece : piece <+: chars) : ∃ longest, IsLongest P longest chars := by
  -- The rest behind the piece gets shorter with every longer piece.
  induction hrest : chars.length - piece.length using Nat.strongRecOn generalizing piece with
  | ind room ih =>
    by_cases hlongest : ∀ other, P other → other <+: chars → other.length ≤ piece.length
    · exact ⟨piece, hP, hpiece, hlongest⟩
    · simp only [not_forall, not_le] at hlongest
      obtain ⟨other, hother, hinitial, hlt⟩ := hlongest
      have hfits := hinitial.length_le
      exact ih (chars.length - other.length) (by omega) hother hinitial rfl

/-! ## Pieces -/

/-- Digits, at least one. -/
def IsDigits (chars : List Char) : Prop := chars ≠ [] ∧ ∀ c ∈ chars, c.isDigit = true

/-- The fraction of a number literal, which may be missing. -/
inductive IsFraction (decimalSeparator : Char) : List Char → Prop where
  | missing : IsFraction decimalSeparator []
  | present {digits : List Char} (hdigits : IsDigits digits) :
      IsFraction decimalSeparator (decimalSeparator :: digits)

/-- The exponent of a number literal, which may be missing. -/
inductive IsExponent : List Char → Prop where
  | missing : IsExponent []
  | present {mark : Char} {sign digits : List Char}
      (hmark : Decimal.isExponentMark mark = true)
      (hsign : sign = [] ∨ sign = ['+'] ∨ sign = ['-']) (hdigits : IsDigits digits) :
      IsExponent (mark :: (sign ++ digits))

/-- A number literal: digits, and then a fraction and an exponent or not. -/
inductive IsLiteral (decimalSeparator : Char) : List Char → Prop where
  | join {whole fraction exponent : List Char} (hwhole : IsDigits whole)
      (hfraction : IsFraction decimalSeparator fraction) (hexponent : IsExponent exponent) :
      IsLiteral decimalSeparator (whole ++ (fraction ++ exponent))

/-- A letter or underscore, and then letters, digits and underscores. -/
inductive IsIdentifier : List Char → Prop where
  | cons {c : Char} {part : List Char} (hstart : isIdentifierStart c = true)
      (hpart : ∀ d ∈ part, isIdentifierPart d = true) : IsIdentifier (c :: part)

/-- A bracket, an argument separator or a spelling of an operator. -/
inductive IsSymbol (argumentSeparator : Char) : List Char → Prop where
  | leftBracket : IsSymbol argumentSeparator ['(']
  | rightBracket : IsSymbol argumentSeparator [')']
  | separator : IsSymbol argumentSeparator [argumentSeparator]
  | operator {spelling : List Char × BinaryOp} (hmem : spelling ∈ operatorSpellings) :
      IsSymbol argumentSeparator spelling.1

/-- What a text can consist of between its gaps. -/
inductive IsPiece (p : Punctuation) : List Char → Prop where
  | literal {piece : List Char} (h : IsLiteral p.decimalSeparator piece) : IsPiece p piece
  | identifier {piece : List Char} (h : IsIdentifier piece) : IsPiece p piece
  | symbol {piece : List Char} (h : IsSymbol p.argumentSeparator piece) : IsPiece p piece

/-! ## The parts of a literal -/

theorem IsDigits.append {digits more : List Char} (h : IsDigits digits)
    (hmore : ∀ c ∈ more, c.isDigit = true) : IsDigits (digits ++ more) :=
  ⟨List.append_ne_nil_of_left_ne_nil h.1 more, List.forall_mem_append.mpr ⟨h.2, hmore⟩⟩

theorem IsExponent.append {exponent more : List Char} (h : IsExponent exponent)
    (hsome : exponent ≠ []) (hmore : ∀ c ∈ more, c.isDigit = true) :
    IsExponent (exponent ++ more) := by
  cases h with
  | missing => exact absurd rfl hsome
  | present hmark hsign hdigits =>
    rw [List.cons_append, List.append_assoc]
    exact .present hmark hsign (hdigits.append hmore)

theorem IsFraction.append {s : Char} {fraction more : List Char} (h : IsFraction s fraction)
    (hsome : fraction ≠ []) (hmore : ∀ c ∈ more, c.isDigit = true) :
    IsFraction s (fraction ++ more) := by
  cases h with
  | missing => exact absurd rfl hsome
  | present hdigits => exact .present (hdigits.append hmore)

theorem isLiteral_singleton (s : Char) {c : Char} (h : c.isDigit = true) : IsLiteral s [c] := by
  have hdigits : IsDigits [c] := ⟨List.cons_ne_nil c [], List.forall_mem_singleton.mpr h⟩
  exact .join hdigits .missing .missing

/-- Digits behind a literal belong to it. -/
theorem IsLiteral.append {s : Char} {literal more : List Char} (h : IsLiteral s literal)
    (hmore : ∀ c ∈ more, c.isDigit = true) : IsLiteral s (literal ++ more) := by
  obtain ⟨hwhole, hfraction, hexponent⟩ := h
  rename_i whole fraction exponent
  by_cases hexp : exponent = []
  · by_cases hfrac : fraction = []
    · subst hexp hfrac
      simpa using IsLiteral.join (hwhole.append hmore) hfraction .missing
    · subst hexp
      simpa using IsLiteral.join hwhole (hfraction.append hfrac hmore) .missing
  · simpa using IsLiteral.join hwhole hfraction (hexponent.append hexp hmore)

theorem IsLiteral.exists_cons {s : Char} {literal : List Char} (h : IsLiteral s literal) :
    ∃ c rest, literal = c :: rest ∧ c.isDigit = true := by
  obtain ⟨⟨hsome, hdigits⟩, -, -⟩ := h
  obtain ⟨c, more, rfl⟩ := List.exists_cons_of_ne_nil hsome
  exact ⟨c, _, rfl, hdigits c List.mem_cons_self⟩

theorem isFraction_splitFraction (s : Char) (chars : List Char) :
    IsFraction s (splitFraction s chars).1 := by
  cases chars with
  | nil => exact .missing
  | cons c rest =>
    have hdigits := splitRun_all Char.isDigit rest
    rw [splitFraction]
    split
    · rename_i hseparator
      split
      · exact .missing
      · rename_i heq
        rw [heq] at hdigits
        rw [hseparator]
        exact .present ⟨List.cons_ne_nil _ _, hdigits⟩
    · exact .missing

theorem splitOptionalSign_fst (chars : List Char) :
    (splitOptionalSign chars).1 = [] ∨ (splitOptionalSign chars).1 = ['+'] ∨
      (splitOptionalSign chars).1 = ['-'] := by
  unfold splitOptionalSign
  split <;> simp

theorem isExponent_splitExponent (chars : List Char) : IsExponent (splitExponent chars).1 := by
  cases chars with
  | nil => exact .missing
  | cons c rest =>
    have hsign := splitOptionalSign_fst rest
    have hdigits := splitRun_all Char.isDigit (splitOptionalSign rest).2
    rw [splitExponent]
    split
    · rename_i hmark
      dsimp only
      split
      · exact .missing
      · rename_i heq
        rw [heq] at hdigits
        exact .present hmark hsign ⟨List.cons_ne_nil _ _, hdigits⟩
    · exact .missing

/-! ## Numbers -/

/-- No digit comes next. -/
def EndsDigits (rest : List Char) : Prop := ∀ c ∈ rest.head?, c.isDigit = false

theorem IsExponent.endsDigits {exponent rest : List Char} (h : IsExponent exponent)
    (hrest : EndsDigits rest) : EndsDigits (exponent ++ rest) := by
  cases h with
  | missing => exact hrest
  | present hmark _ _ =>
    intro c hc
    cases hc
    exact SameNumeral.not_isDigit_of_isExponentMark hmark

theorem splitOptionalSign_of_isDigits {sign digits rest : List Char}
    (hsign : sign = [] ∨ sign = ['+'] ∨ sign = ['-']) (hdigits : IsDigits digits) :
    splitOptionalSign (sign ++ (digits ++ rest)) = (sign, digits ++ rest) := by
  obtain ⟨hsome, hall⟩ := hdigits
  obtain ⟨d, more, rfl⟩ := List.exists_cons_of_ne_nil hsome
  have hdigit := hall d List.mem_cons_self
  rcases hsign with rfl | rfl | rfl
  · unfold splitOptionalSign
    split
    · rename_i heq
      cases (List.cons.inj heq).1
      cases hdigit
    · rename_i heq
      cases (List.cons.inj heq).1
      cases hdigit
    · rfl
  · rfl
  · rfl

theorem splitExponent_of_isExponent {exponent rest : List Char} (h : IsExponent exponent)
    (hrest : EndsDigits rest) (hmissing : exponent = [] → (splitExponent rest).1 = []) :
    splitExponent (exponent ++ rest) = (exponent, rest) := by
  cases h with
  | missing =>
    have happend := splitExponent_append rest
    rw [hmissing rfl, List.nil_append] at happend
    exact Prod.ext (hmissing rfl) happend
  | @present mark sign digits hmark hsign hdigits =>
    obtain ⟨d, more, hmore⟩ := List.exists_cons_of_ne_nil hdigits.1
    rw [List.cons_append, List.append_assoc, splitExponent, if_pos hmark,
      splitOptionalSign_of_isDigits hsign hdigits]
    dsimp only
    rw [splitRun_of_all hdigits.2 hrest, hmore]

section Literals

variable {s : Char} (hs : s = '.' ∨ s = ',')

include hs

theorem IsFraction.endsDigits {fraction rest : List Char} (h : IsFraction s fraction)
    (hrest : EndsDigits rest) : EndsDigits (fraction ++ rest) := by
  cases h with
  | missing => exact hrest
  | present _ =>
    intro c hc
    cases hc
    rcases hs with rfl | rfl <;> rfl

theorem splitFraction_of_isFraction {fraction exponent rest : List Char}
    (h : IsFraction s fraction) (hexponent : IsExponent exponent) (hrest : EndsDigits rest)
    (hmissing : fraction = [] → exponent = [] → (splitFraction s rest).1 = []) :
    splitFraction s (fraction ++ (exponent ++ rest)) = (fraction, exponent ++ rest) := by
  cases h with
  | missing =>
    cases hexponent with
    | missing =>
      have happend := splitFraction_append s rest
      rw [hmissing rfl rfl, List.nil_append] at happend
      exact Prod.ext (hmissing rfl rfl) happend
    | present hmark _ _ =>
      refine splitFraction_of_ne fun c hc => ?_
      cases hc
      rintro rfl
      rcases hs with rfl | rfl <;> cases hmark
  | present hdigits =>
    exact splitFraction_of_digits hdigits.1 hdigits.2 (hexponent.endsDigits hrest)

/-- The longest literal is split off. -/
theorem splitNumber_of_isLongest {literal rest : List Char}
    (h : IsLongest (IsLiteral s) literal (literal ++ rest)) :
    splitNumber s (literal ++ rest) = (literal, rest) := by
  obtain ⟨hwhole, hfraction, hexponent⟩ := h.holds
  rename_i whole fraction exponent
  -- What would go on with the literal, would make a longer one.
  have hrest : EndsDigits rest := by
    intro c hc
    rw [Bool.eq_false_iff]
    intro hdigit
    exact h.not_extended hc (h.holds.append (List.forall_mem_singleton.mpr hdigit))
  have hnoExponent : exponent = [] → (splitExponent rest).1 = [] := by
    rintro rfl
    refine h.eq_nil_of_extended ⟨_, splitExponent_append rest⟩ ?_
    simpa using IsLiteral.join hwhole hfraction (isExponent_splitExponent rest)
  have hnoFraction : fraction = [] → exponent = [] → (splitFraction s rest).1 = [] := by
    rintro rfl rfl
    refine h.eq_nil_of_extended ⟨_, splitFraction_append s rest⟩ ?_
    simpa using IsLiteral.join hwhole (isFraction_splitFraction s rest) .missing
  obtain ⟨d, more, hmore⟩ := List.exists_cons_of_ne_nil hwhole.1
  rw [List.append_assoc, List.append_assoc, splitNumber,
    splitRun_of_all hwhole.2 (hfraction.endsDigits hs (hexponent.endsDigits hrest)), hmore]
  dsimp only
  rw [splitFraction_of_isFraction hs hfraction hexponent hrest hnoFraction]
  dsimp only
  rw [splitExponent_of_isExponent hexponent hrest hnoExponent, List.append_assoc]

end Literals

/-- A number is read from the longest literal, if the literal stands for one. -/
theorem readNumber?_of_isLongest {s : Char} (hs : s = '.' ∨ s = ',') {literal rest : List Char}
    (h : IsLongest (IsLiteral s) literal (literal ++ rest)) :
    readNumber? s (literal ++ rest) = (numberKind? s literal).map (⟨·, literal, rest⟩) := by
  obtain ⟨c, digits, rfl, -⟩ := h.holds.exists_cons
  rw [readNumber?, splitNumber_of_isLongest hs h]
  dsimp only
  cases numberKind? s (c :: digits) <;> rfl

/-! ## Identifiers and symbols -/

theorem readIdentifier?_of_isLongest {name rest : List Char}
    (h : IsLongest IsIdentifier name (name ++ rest)) :
    readIdentifier? (name ++ rest) = some ⟨.identifier (String.ofList name), name, rest⟩ := by
  obtain ⟨hstart, hpart⟩ := h.holds
  rename_i c part
  have hrest : ∀ d ∈ rest.head?, isIdentifierPart d = false := by
    intro d hd
    rw [Bool.eq_false_iff]
    intro hmore
    have hlonger : IsIdentifier (c :: part ++ [d]) :=
      .cons hstart (List.forall_mem_append.mpr ⟨hpart, List.forall_mem_singleton.mpr hmore⟩)
    exact h.not_extended hd hlonger
  rw [List.cons_append, readIdentifier?, if_pos hstart, splitRun_of_all hpart hrest]

theorem readIdentifier?_of_not_isIdentifierStart {c : Char} (rest : List Char)
    (h : isIdentifierStart c = false) : readIdentifier? (c :: rest) = none := by
  rw [readIdentifier?, if_neg (Bool.eq_false_iff.mp h)]

/-- The longer spellings come first, and no spelling comes twice. -/
theorem operatorSpellings_pairwise : operatorSpellings.Pairwise fun spelling later =>
    spelling.1 ≠ later.1 ∧ later.1.length ≤ spelling.1.length := by
  decide

/-- The longest spelling at the start of a text is the first one that is found. -/
theorem find?_operatorSpellings {spelling : List Char × BinaryOp} {chars : List Char}
    (hmem : spelling ∈ operatorSpellings) (hinitial : spelling.1 <+: chars)
    (hlongest : ∀ other ∈ operatorSpellings, other.1 <+: chars →
      other.1.length ≤ spelling.1.length) :
    (operatorSpellings.find? fun other => other.1.isPrefixOf chars) = some spelling := by
  cases hfind : operatorSpellings.find? fun other => other.1.isPrefixOf chars with
  | none =>
    exact absurd (List.isPrefixOf_iff_prefix.mpr hinitial) (List.find?_eq_none.mp hfind _ hmem)
  | some first =>
    obtain ⟨hfirst, before, after, hsplit, hbefore⟩ := List.find?_eq_some_iff_append.mp hfind
    have hfirst := List.isPrefixOf_iff_prefix.mp hfirst
    rw [hsplit, List.mem_append, List.mem_cons] at hmem
    rcases hmem with hearlier | rfl | hlater
    · have hnot := hbefore spelling hearlier
      rw [List.isPrefixOf_iff_prefix.mpr hinitial] at hnot
      cases hnot
    · rfl
    · -- A later spelling is no longer, so it is the same.
      have hpairwise := operatorSpellings_pairwise
      rw [hsplit] at hpairwise
      obtain ⟨hne, hle⟩ :=
        (List.pairwise_cons.mp (List.pairwise_append.mp hpairwise).2.1).1 spelling hlater
      have hmem : first ∈ operatorSpellings := hsplit ▸ by simp
      have hsame := (List.prefix_of_prefix_length_le hinitial hfirst hle).eq_of_length_le
        (hlongest first hmem hfirst)
      exact absurd hsame.symm hne

/-- Operators have no character of the other classes. -/
theorem operatorSpellings_chars : ∀ spelling ∈ operatorSpellings, spelling.1 ≠ [] ∧
    ∀ c ∈ spelling.1, c ∈ symbolChars ∧ c.isDigit = false ∧ isIdentifierStart c = false ∧
      c ∉ ['(', ')', ',', ';'] := by
  have hall : (operatorSpellings.all fun spelling => !spelling.1.isEmpty &&
      spelling.1.all fun c => symbolChars.contains c && !c.isDigit && !isIdentifierStart c &&
        !(['(', ')', ',', ';'].contains c)) = true := by decide
  simpa [and_assoc] using hall

variable {p : Punctuation}

theorem IsSymbol.exists_cons {piece : List Char} (h : IsSymbol p.argumentSeparator piece) :
    ∃ c rest, piece = c :: rest ∧ c.isDigit = false ∧ isIdentifierStart c = false := by
  cases h with
  | leftBracket => exact ⟨'(', [], rfl, rfl, rfl⟩
  | rightBracket => exact ⟨')', [], rfl, rfl, rfl⟩
  | separator =>
    refine ⟨p.argumentSeparator, [], rfl, ?_⟩
    rcases p.argumentSeparator_eq with heq | heq <;> rw [heq] <;> exact ⟨rfl, rfl⟩
  | @operator spelling hmem =>
    obtain ⟨hsome, hchars⟩ := operatorSpellings_chars spelling hmem
    obtain ⟨c, rest, hspelling⟩ := List.exists_cons_of_ne_nil hsome
    obtain ⟨-, hdigit, hstart, -⟩ := hchars c (hspelling ▸ List.mem_cons_self)
    exact ⟨c, rest, hspelling, hdigit, hstart⟩

theorem readSymbol?_of_mem_operatorSpellings {spelling : List Char × BinaryOp}
    {rest : List Char} (hmem : spelling ∈ operatorSpellings)
    (h : IsLongest (IsSymbol p.argumentSeparator) spelling.1 (spelling.1 ++ rest)) :
    readSymbol? p.argumentSeparator (spelling.1 ++ rest) =
      some ⟨.operator (.binary spelling.2), spelling.1, rest⟩ := by
  have hfind := find?_operatorSpellings hmem h.isPrefix fun other hother =>
    h.length_le other.1 (.operator hother)
  have hoperator : readOperator? (spelling.1 ++ rest) =
      some ⟨.operator (.binary spelling.2), spelling.1, rest⟩ := by
    rw [readOperator?_eq, hfind, Option.map_some, List.drop_left]
  obtain ⟨hsome, hchars⟩ := operatorSpellings_chars spelling hmem
  obtain ⟨c, more, hspelling⟩ := List.exists_cons_of_ne_nil hsome
  obtain ⟨-, -, -, hother⟩ := hchars c (hspelling ▸ List.mem_cons_self)
  simp only [List.mem_cons, List.not_mem_nil, or_false, not_or] at hother
  obtain ⟨hopen, hclose, hcomma, hsemicolon⟩ := hother
  have hseparator : c ≠ p.argumentSeparator := by
    rcases p.argumentSeparator_eq with heq | heq <;> rwa [heq]
  rw [hspelling, List.cons_append] at hoperator ⊢
  rw [readSymbol?, if_neg hopen, if_neg hclose, if_neg hseparator, hoperator]

theorem readSymbol?_of_isLongest {piece rest : List Char}
    (h : IsLongest (IsSymbol p.argumentSeparator) piece (piece ++ rest)) :
    readSymbol? p.argumentSeparator (piece ++ rest) =
      (kindOfPiece? p piece).map (⟨·, piece, rest⟩) := by
  cases h.holds with
  | leftBracket => rfl
  | rightBracket => rfl
  | separator =>
    rcases p.argumentSeparator_eq with heq | heq <;> rw [kindOfPiece?, heq] <;> rfl
  | operator hmem =>
    rw [readSymbol?_of_mem_operatorSpellings hmem h, kindOfPiece?_of_mem_operatorSpellings hmem]
    rfl

theorem IsSymbol.isSome_kindOfPiece? {piece : List Char}
    (h : IsSymbol p.argumentSeparator piece) : (kindOfPiece? p piece).isSome = true := by
  cases h with
  | leftBracket => rfl
  | rightBracket => rfl
  | separator => rcases p.argumentSeparator_eq with heq | heq <;> rw [kindOfPiece?, heq] <;> rfl
  | operator hmem => rw [kindOfPiece?_of_mem_operatorSpellings hmem]; rfl

theorem readSymbol?_of_noSymbol {chars : List Char}
    (h : ∀ piece, IsSymbol p.argumentSeparator piece → ¬piece <+: chars) :
    readSymbol? p.argumentSeparator chars = none := by
  cases chars with
  | nil => rfl
  | cons c rest =>
    have hfirst : [c] <+: c :: rest := ⟨rest, rfl⟩
    have hopen : c ≠ '(' := by rintro rfl; exact h _ .leftBracket hfirst
    have hclose : c ≠ ')' := by rintro rfl; exact h _ .rightBracket hfirst
    have hseparator : c ≠ p.argumentSeparator := by rintro rfl; exact h _ .separator hfirst
    have hfind : (operatorSpellings.find? fun spelling => spelling.1.isPrefixOf (c :: rest)) =
        none :=
      List.find?_eq_none.mpr fun spelling hmem hinitial =>
        h _ (.operator hmem) (List.isPrefixOf_iff_prefix.mp hinitial)
    rw [readSymbol?, if_neg hopen, if_neg hclose, if_neg hseparator, readOperator?_eq, hfind]
    rfl

/-! ## Lexemes -/

/-- The first character of a piece tells its class. -/
theorem IsPiece.cases_head {piece : List Char} (h : IsPiece p piece) :
    ∃ c rest, piece = c :: rest ∧
      (c.isDigit = true ∧ IsLiteral p.decimalSeparator piece ∨
        c.isDigit = false ∧ isIdentifierStart c = true ∧ IsIdentifier piece ∨
        c.isDigit = false ∧ isIdentifierStart c = false ∧
          IsSymbol p.argumentSeparator piece) := by
  cases h with
  | literal hliteral =>
    obtain ⟨c, rest, rfl, hdigit⟩ := hliteral.exists_cons
    exact ⟨c, rest, rfl, .inl ⟨hdigit, hliteral⟩⟩
  | identifier hidentifier =>
    cases hidentifier with
    | cons hstart hpart =>
      exact ⟨_, _, rfl,
        .inr (.inl ⟨isDigit_of_isIdentifierStart hstart, hstart, .cons hstart hpart⟩)⟩
  | symbol hsymbol =>
    obtain ⟨c, rest, rfl, hdigit, hstart⟩ := hsymbol.exists_cons
    exact ⟨c, rest, rfl, .inr (.inr ⟨hdigit, hstart, hsymbol⟩)⟩

theorem isIdentifierStart_of_isDigit {c : Char} (h : c.isDigit = true) :
    isIdentifierStart c = false := by
  rw [Bool.eq_false_iff]
  intro hstart
  rw [isDigit_of_isIdentifierStart hstart] at h
  cases h

/-- No symbol starts with a digit. -/
theorem readSymbol?_of_isDigit {c : Char} (rest : List Char) (h : c.isDigit = true) :
    readSymbol? p.argumentSeparator (c :: rest) = none := by
  refine readSymbol?_of_noSymbol fun piece hsymbol hinitial => ?_
  obtain ⟨d, more, rfl, hdigit, -⟩ := hsymbol.exists_cons
  rw [(List.cons_prefix_cons.mp hinitial).1, h] at hdigit
  cases hdigit

/-- A text that starts with no piece starts with no lexeme. -/
theorem readLexeme?_of_noPiece {chars : List Char}
    (h : ∀ piece, IsPiece p piece → ¬piece <+: chars) : readLexeme? p chars = none := by
  have hsymbol : readSymbol? p.argumentSeparator chars = none :=
    readSymbol?_of_noSymbol fun piece hpiece => h piece (.symbol hpiece)
  cases chars with
  | nil => rfl
  | cons c rest =>
    have hfirst : [c] <+: c :: rest := ⟨rest, rfl⟩
    have hdigit : c.isDigit = false := by
      rw [Bool.eq_false_iff]
      intro hdigit
      exact h [c] (.literal (isLiteral_singleton _ hdigit)) hfirst
    have hstart : isIdentifierStart c = false := by
      rw [Bool.eq_false_iff]
      intro hstart
      exact h [c] (.identifier (.cons hstart (List.forall_mem_nil _))) hfirst
    rw [readLexeme?, readNumber?_of_not_isDigit _ _ hdigit,
      readIdentifier?_of_not_isIdentifierStart _ hstart, hsymbol]

section Lexemes

variable (hseparator : p.decimalSeparator = '.' ∨ p.decimalSeparator = ',')

include hseparator

/-- The longest piece at the start of a text is the lexeme, if it stands for
something.  Otherwise there is none. -/
theorem readLexeme?_of_isLongest {piece rest : List Char}
    (h : IsLongest (IsPiece p) piece (piece ++ rest)) :
    readLexeme? p (piece ++ rest) = (kindOfPiece? p piece).map (⟨·, piece, rest⟩) := by
  obtain ⟨c, more, hpiece, hclass⟩ := h.holds.cases_head
  have hcons : piece ++ rest = c :: (more ++ rest) := by rw [hpiece, List.cons_append]
  rw [readLexeme?]
  rcases hclass with ⟨hdigit, hliteral⟩ | ⟨hdigit, hstart, hidentifier⟩ | ⟨hdigit, hstart, hsymbol⟩
  · have hkind : kindOfPiece? p piece = numberKind? p.decimalSeparator piece := by
      rw [hpiece, kindOfPiece?, if_pos hdigit]
    rw [readNumber?_of_isLongest hseparator (h.mono hliteral fun _ => .literal), hkind]
    cases numberKind? p.decimalSeparator piece with
    | some kind => rfl
    | none =>
      rw [hcons, readIdentifier?_of_not_isIdentifierStart _ (isIdentifierStart_of_isDigit hdigit),
        readSymbol?_of_isDigit _ hdigit]
      rfl
  · have hkind : kindOfPiece? p piece = some (.identifier (String.ofList piece)) := by
      rw [hpiece, kindOfPiece?, if_neg (Bool.eq_false_iff.mp hdigit), if_pos hstart]
    have hnumber : readNumber? p.decimalSeparator (piece ++ rest) = none := by
      rw [hcons, readNumber?_of_not_isDigit _ _ hdigit]
    rw [hnumber, readIdentifier?_of_isLongest (h.mono hidentifier fun _ => .identifier), hkind]
    rfl
  · have hnumber : readNumber? p.decimalSeparator (piece ++ rest) = none := by
      rw [hcons, readNumber?_of_not_isDigit _ _ hdigit]
    have hname : readIdentifier? (piece ++ rest) = none := by
      rw [hcons, readIdentifier?_of_not_isIdentifierStart _ hstart]
    rw [hnumber, hname, readSymbol?_of_isLongest (h.mono hsymbol fun _ => .symbol)]

/-- A lexeme is the longest piece at the start of the text that it is read from,
and it has the kind that the piece stands for. -/
theorem readLexeme?_eq_some_iff {chars piece rest : List Char} {kind : TokenKind} :
    readLexeme? p chars = some ⟨kind, piece, rest⟩ ↔
      piece ++ rest = chars ∧ IsLongest (IsPiece p) piece chars ∧
        kindOfPiece? p piece = some kind := by
  constructor
  · intro h
    by_cases hsome : ∃ piece, IsPiece p piece ∧ piece <+: chars
    · obtain ⟨first, hfirst, hinitial⟩ := hsome
      obtain ⟨longest, hlongest⟩ := exists_isLongest hfirst hinitial
      obtain ⟨after, rfl⟩ := hlongest.isPrefix
      rw [readLexeme?_of_isLongest hseparator hlongest, Option.map_eq_some_iff] at h
      obtain ⟨found, hfound, heq⟩ := h
      cases heq
      exact ⟨rfl, hlongest, hfound⟩
    · rw [readLexeme?_of_noPiece fun piece hpiece hinitial => hsome ⟨piece, hpiece, hinitial⟩] at h
      cases h
  · rintro ⟨rfl, hlongest, hkind⟩
    rw [readLexeme?_of_isLongest hseparator hlongest, hkind]
    rfl

/-- Nothing that comes later tells where a lexeme ends: it is read in the same way
if the text is cut off anywhere behind it. -/
theorem readLexeme?_of_cut {piece text rest : List Char} {kind : TokenKind}
    (h : readLexeme? p (piece ++ (text ++ rest)) = some ⟨kind, piece, text ++ rest⟩) :
    readLexeme? p (piece ++ text) = some ⟨kind, piece, text⟩ := by
  obtain ⟨-, hlongest, hkind⟩ := (readLexeme?_eq_some_iff hseparator).mp h
  refine (readLexeme?_eq_some_iff hseparator).mpr ⟨rfl, ?_, hkind⟩
  exact hlongest.of_isPrefix ⟨text, rfl⟩ ⟨rest, by rw [List.append_assoc]⟩

/-! ## Pieces and gaps -/

theorem IsPiece.writes {piece : List Char} (h : IsPiece p piece) : ∀ c ∈ piece, p.Writes c := by
  cases h with
  | literal hliteral =>
    -- A literal is split off from itself.
    have hself : IsLongest (IsLiteral p.decimalSeparator) piece (piece ++ []) := by
      rw [List.append_nil]
      exact ⟨hliteral, List.prefix_refl piece, fun other _ hinitial => hinitial.length_le⟩
    have hsplit := splitNumber_of_isLongest hseparator hself
    intro c hc
    have hmem : c ∈ (splitNumber p.decimalSeparator (piece ++ [])).1 := by
      rw [hsplit]
      exact hc
    exact (isNumeric_of_mem_splitNumber hmem).writes
  | identifier hidentifier =>
    obtain ⟨hstart, hpart⟩ := hidentifier
    exact List.forall_mem_cons.mpr ⟨.inl (isIdentifierPart_of_isIdentifierStart hstart),
      fun c hc => .inl (hpart c hc)⟩
  | symbol hsymbol =>
    cases hsymbol with
    | leftBracket => exact List.forall_mem_singleton.mpr (.inr (.inl (by decide)))
    | rightBracket => exact List.forall_mem_singleton.mpr (.inr (.inl (by decide)))
    | separator => exact List.forall_mem_singleton.mpr (.inr (.inr (.inr rfl)))
    | operator hmem =>
      exact fun c hc => .inr (.inl ((operatorSpellings_chars _ hmem).2 c hc).1)

/-- A piece that ends where a gap begins, or where the text ends, is the longest
one. -/
theorem isLongest_of_isPiece {piece rest : List Char} (h : IsPiece p piece)
    (hrest : ∀ c ∈ rest.head?, isGap c = true) :
    IsLongest (IsPiece p) piece (piece ++ rest) := by
  refine ⟨h, List.prefix_append piece rest, fun other hother hinitial => ?_⟩
  by_contra hlonger
  obtain ⟨more, rfl⟩ := List.prefix_of_prefix_length_le (List.prefix_append piece rest) hinitial
    (by omega)
  obtain ⟨c, others, rfl⟩ : ∃ c others, more = c :: others := by
    refine List.exists_cons_of_ne_nil ?_
    rintro rfl
    simp at hlonger
  obtain ⟨after, rfl⟩ := (List.prefix_append_right_inj piece).mp hinitial
  have hgap := isGap_eq_false_of_writes hseparator
    (hother.writes hseparator c (List.mem_append_right piece List.mem_cons_self))
  rw [hrest c rfl] at hgap
  cases hgap

end Lexemes

end FormulaEngine
