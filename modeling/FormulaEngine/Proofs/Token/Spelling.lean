import FormulaEngine.Proofs.Decimal.Text
import FormulaEngine.Proofs.Token.Alphabet

/-!
# How tokens are spelled

`Spells` says that the characters of a text, in front of what follows them,
are read as tokens of certain kinds.  Spelled texts can be joined
(`Spells.append`), so a longer text is read piece by piece.

A piece must not go on in what follows it.  `Ends` is the condition for
names and numbers: no letter, digit, underscore or point comes next.
Brackets, separators and the minus sign need no such condition.

* `spells_identifier`, `spells_integer` and `spells_decimal` are the pieces
  that end in this way.
* `spells_symbol`, `spells_operator` and `spells_gap` are the others.
-/

namespace FormulaEngine

open Text

/-- The characters before `rest` are read as tokens of these kinds, whatever
position they stand at. -/
def Spells (p : Punctuation) (text rest : List Char) (kinds : List TokenKind) : Prop :=
  ∀ position, ∃ tokens position', tokens.map Token.kind = kinds ∧
    readTokens p position (text ++ rest) = (readTokens p position' rest).map (tokens ++ ·)

variable {p : Punctuation}

theorem Spells.append {text text' rest : List Char} {kinds kinds' : List TokenKind}
    (h : Spells p text (text' ++ rest) kinds) (h' : Spells p text' rest kinds') :
    Spells p (text ++ text') rest (kinds ++ kinds') := by
  intro position
  obtain ⟨tokens, middle, hkinds, hread⟩ := h position
  obtain ⟨tokens', position', hkinds', hread'⟩ := h' middle
  refine ⟨tokens ++ tokens', position', by rw [List.map_append, hkinds, hkinds'], ?_⟩
  rw [List.append_assoc, hread, hread']
  cases readTokens p position' rest with
  | error e => rfl
  | ok more => exact congrArg Except.ok (List.append_assoc tokens tokens' more).symm

/-- A gap is no token. -/
theorem spells_gap (c : Char) (rest : List Char) (h : isGap c = true) : Spells p [c] rest [] := by
  intro position
  refine ⟨[], position.after c, rfl, ?_⟩
  rw [List.singleton_append, readTokens, if_pos h]
  cases readTokens p (position.after c) rest <;> rfl

/-- A lexeme is a token. -/
theorem spells_lexeme {c : Char} {text rest : List Char} {kind : TokenKind}
    (hgap : isGap c = false)
    (h : readLexeme? p (c :: text ++ rest) = some ⟨kind, c :: text, rest⟩) :
    Spells p (c :: text) rest [kind] := by
  intro position
  refine ⟨[⟨kind, Range.onLine position (c :: text).length⟩],
    position.afterAll (c :: text), rfl, ?_⟩
  rw [List.cons_append] at h ⊢
  rw [readTokens_of_lexeme (Bool.eq_false_iff.mp hgap) h]
  rfl

/-- A whole text that is spelled out is split into those tokens. -/
theorem Spells.tokenize {text : List Char} {kinds : List TokenKind} (h : Spells p text [] kinds) :
    ∃ tokens, tokens.map Token.kind = kinds ∧
      tokenize p (String.ofList text) = .ok (markNegations none tokens) := by
  obtain ⟨tokens, position', hkinds, hread⟩ := h .first
  refine ⟨tokens, hkinds, ?_⟩
  rw [List.append_nil, readTokens] at hread
  rw [FormulaEngine.tokenize, String.toList_ofList, hread]
  exact congrArg (fun tokens => Except.ok (markNegations none tokens)) (List.append_nil tokens)

/-! ## Where names and numbers end -/

/-- What follows goes on with no name and no number. -/
def Ends (rest : List Char) : Prop :=
  ∀ c ∈ rest.head?, isIdentifierPart c = false ∧ c ≠ '.'

theorem ends_nil : Ends [] := by
  intro c hc
  cases hc

theorem ends_cons {c : Char} (rest : List Char) (hpart : isIdentifierPart c = false)
    (hpoint : c ≠ '.') : Ends (c :: rest) := by
  intro d hd
  cases hd
  exact ⟨hpart, hpoint⟩

theorem Ends.isDigit {rest : List Char} (h : Ends rest) :
    ∀ c ∈ rest.head?, c.isDigit = false := by
  intro c hc
  rw [Bool.eq_false_iff]
  intro hdigit
  exact absurd (isIdentifierPart_of_isDigit hdigit) (by simp [(h c hc).1])

theorem Ends.isExponentMark {rest : List Char} (h : Ends rest) :
    ∀ c ∈ rest.head?, Decimal.isExponentMark c = false := by
  intro c hc
  rw [Bool.eq_false_iff]
  intro hmark
  exact absurd (isIdentifierPart_of_isExponentMark hmark) (by simp [(h c hc).1])

/-! ## Names -/

/-- Whether a text is an identifier: a letter or underscore, and then
letters, digits and underscores. -/
def isIdentifier (name : String) : Bool :=
  match name.toList with
  | [] => false
  | c :: part => isIdentifierStart c && part.all isIdentifierPart

theorem isDigit_of_isIdentifierStart {c : Char} (h : isIdentifierStart c = true) :
    c.isDigit = false := by
  rw [Bool.eq_false_iff]
  intro hdigit
  rw [isIdentifierStart, Bool.or_eq_true, beq_iff_eq] at h
  rcases h with halpha | rfl
  · have hletter : 'A'.val ≤ c.val := by
      rcases (Bool.or_eq_true _ _).mp halpha with hupper | hlower
      · exact (of_decide_eq_true hupper).1
      · have hsmall : 'a'.val ≤ c.val := of_decide_eq_true ((Bool.and_eq_true _ _).mp hlower).1
        exact UInt32.le_trans (by decide) hsmall
    have hdigit' : c.toNat ≤ '9'.toNat := (Char.isDigit_iff_toNat.mp hdigit).2
    have hletter' : 'A'.toNat ≤ c.toNat := UInt32.le_iff_toNat_le.mp hletter
    exact absurd (Nat.le_trans hletter' hdigit') (by decide)
  · cases hdigit

theorem isGap_of_isIdentifierPart {c : Char} (h : isIdentifierPart c = true) :
    isGap c = false := by
  rw [Bool.eq_false_iff]
  intro hgap
  simp only [isGap, Bool.or_eq_true, beq_iff_eq] at hgap
  rcases hgap with ((rfl | rfl) | rfl) | rfl <;> cases h

/-- A text that starts with no digit is read as no number. -/
theorem readNumber?_of_not_isDigit {c : Char} (s : Char) (rest : List Char)
    (h : c.isDigit = false) : readNumber? s (c :: rest) = none := by
  have hsplit : splitRun Char.isDigit (c :: rest) = ([], c :: rest) := by
    simp [splitRun, h]
  rw [readNumber?, splitNumber, hsplit]

/-- A name is read as an identifier. -/
theorem spells_identifier {name : String} {rest : List Char} (h : isIdentifier name = true)
    (hends : Ends rest) : Spells p name.toList rest [.identifier name] := by
  rw [isIdentifier] at h
  split at h
  · cases h
  · rename_i c part hname
    obtain ⟨hstart, hpart⟩ := (Bool.and_eq_true _ _).mp h
    have hsplit : splitRun isIdentifierPart (part ++ rest) = (part, rest) :=
      splitRun_of_all (List.all_eq_true.mp hpart) fun d hd => (hends d hd).1
    have hwhole : String.ofList (c :: part) = name := by rw [← hname, String.ofList_toList]
    rw [hname]
    refine spells_lexeme
      (isGap_of_isIdentifierPart (isIdentifierPart_of_isIdentifierStart hstart)) ?_
    rw [List.cons_append, readLexeme?,
      readNumber?_of_not_isDigit _ _ (isDigit_of_isIdentifierStart hstart)]
    dsimp only
    rw [readIdentifier?, if_pos hstart, hsplit]
    dsimp only
    rw [hwhole]

/-! ## Numbers -/

theorem splitFraction_of_ne {s : Char} {rest : List Char} (h : ∀ c ∈ rest.head?, c ≠ s) :
    splitFraction s rest = ([], rest) := by
  cases rest with
  | nil => rfl
  | cons c rest => rw [splitFraction, if_neg (h c rfl)]

theorem splitFraction_of_digits {s : Char} {digits rest : List Char} (hsome : digits ≠ [])
    (hdigits : ∀ c ∈ digits, c.isDigit = true) (hrest : ∀ c ∈ rest.head?, c.isDigit = false) :
    splitFraction s (s :: (digits ++ rest)) = (s :: digits, rest) := by
  obtain ⟨d, more, rfl⟩ := List.exists_cons_of_ne_nil hsome
  rw [splitFraction, if_pos rfl, splitRun_of_all hdigits hrest]

theorem splitExponent_of_not {rest : List Char}
    (h : ∀ c ∈ rest.head?, Decimal.isExponentMark c = false) :
    splitExponent rest = ([], rest) := by
  cases rest with
  | nil => rfl
  | cons c rest => rw [splitExponent, if_neg (by simp [h c rfl])]

/-- A printed magnitude is one number. -/
theorem splitNumber_magnitudeChars (coefficient scale : Nat) {rest : List Char}
    (hends : Ends rest) :
    splitNumber '.' (Decimal.magnitudeChars coefficient scale ++ rest) =
      (Decimal.magnitudeChars coefficient scale, rest) := by
  have hexponent : splitExponent rest = ([], rest) := splitExponent_of_not hends.isExponentMark
  by_cases hscale : scale = 0
  · subst hscale
    rw [Decimal.magnitudeChars_zero]
    obtain ⟨d, more, hdigits⟩ := List.exists_cons_of_ne_nil (digitsOf_ne_nil coefficient)
    have hrun : splitRun Char.isDigit (digitsOf coefficient ++ rest) =
        (digitsOf coefficient, rest) :=
      splitRun_of_all (fun c => isDigit_of_mem_digitsOf) hends.isDigit
    have hfraction : splitFraction '.' rest = ([], rest) :=
      splitFraction_of_ne fun c hc => (hends c hc).2
    rw [splitNumber, hrun, hdigits]
    dsimp only
    rw [hfraction]
    dsimp only
    rw [hexponent, List.append_nil, List.append_nil]
  · rw [Decimal.magnitudeChars_of_ne_zero coefficient hscale]
    obtain ⟨d, more, hdigits⟩ :=
      List.exists_cons_of_ne_nil (digitsOf_ne_nil (coefficient / tenTo scale))
    have hsome : Decimal.fractionChars coefficient scale ≠ [] := by
      intro hnil
      have hlength := Decimal.length_fractionChars coefficient hscale
      rw [hnil] at hlength
      exact hscale hlength.symm
    have hrun : splitRun Char.isDigit (digitsOf (coefficient / tenTo scale) ++
          '.' :: (Decimal.fractionChars coefficient scale ++ rest)) =
        (digitsOf (coefficient / tenTo scale),
          '.' :: (Decimal.fractionChars coefficient scale ++ rest)) :=
      splitRun_of_all (fun c => isDigit_of_mem_digitsOf) (by intro c hc; cases hc; rfl)
    have hfraction := splitFraction_of_digits (s := '.') hsome
      (fun c => Decimal.isDigit_of_mem_fractionChars) hends.isDigit
    rw [List.append_assoc, List.cons_append, splitNumber, hrun, hdigits]
    dsimp only
    rw [hfraction]
    dsimp only
    rw [hexponent, List.append_nil]

theorem spells_magnitudeChars {coefficient scale : Nat} {rest : List Char} {kind : TokenKind}
    (h : numberKind? '.' (Decimal.magnitudeChars coefficient scale) = some kind)
    (hends : Ends rest) :
    Spells {} (Decimal.magnitudeChars coefficient scale) rest [kind] := by
  have hsplit := splitNumber_magnitudeChars coefficient scale hends
  obtain ⟨c, more, hchars, hdigit⟩ := Decimal.magnitudeChars_head coefficient scale
  rw [hchars] at h hsplit ⊢
  refine spells_lexeme (isGap_of_isIdentifierPart (isIdentifierPart_of_isDigit hdigit)) ?_
  rw [readLexeme?, readNumber?, hsplit]
  dsimp only
  rw [h]

/-- Digits alone have an integer value if it has at most 63 bits. -/
theorem integerValue?_digitsOf (n : Nat) :
    integerValue? '.' (digitsOf n) = if n < twoTo 63 then some (Int64.ofNat n) else none := by
  have hplain : (digitsOf n).any (fun c => c == '.' || Decimal.isExponentMark c) = false := by
    rw [List.any_eq_false]
    intro c hc
    have hdigit := isDigit_of_mem_digitsOf hc
    have hmark := Decimal.isExponentMark_of_isDigit hdigit
    have hpoint : c ≠ '.' := by
      rintro rfl
      cases hdigit
    simp [hmark, hpoint]
  rw [integerValue?, if_neg (by simp [hplain]), Decimal.natOfDigits?_digitsOf]

theorem toNat_ofNat_natAbs {value : Int64} (h : 0 ≤ value) :
    value.toInt.natAbs < twoTo 63 ∧ Int64.ofNat value.toInt.natAbs = value := by
  have hnonneg : (0 : Int) ≤ value.toInt := Int64.le_iff_toInt_le.mp h
  have hlt := value.toInt_lt
  have hbound : twoTo 63 = 9223372036854775808 := rfl
  refine ⟨by omega, ?_⟩
  rw [← Int64.ofInt_eq_ofNat, Int.natAbs_of_nonneg hnonneg, Int64.ofInt_toInt]

/-- A literal that is not negative is read as an integer. -/
theorem spells_integer {value : Int64} {rest : List Char} (h : 0 ≤ value) (hends : Ends rest) :
    Spells {} (integerText value.toInt).toList rest [.integer value] := by
  have hnonneg : (0 : Int) ≤ value.toInt := Int64.le_iff_toInt_le.mp h
  obtain ⟨hlt, hvalue⟩ := toNat_ofNat_natAbs h
  have htext : (integerText value.toInt).toList =
      Decimal.magnitudeChars value.toInt.natAbs 0 := by
    rw [integerText, if_neg (Int.not_lt.mpr hnonneg), String.toList_ofList,
      Decimal.magnitudeChars_zero]
  rw [htext]
  refine spells_magnitudeChars ?_ hends
  rw [Decimal.magnitudeChars_zero, numberKind?, integerValue?_digitsOf, if_pos hlt, hvalue]

/-! ## Decimal literals -/

/-- A whole number. -/
def Decimal.IsIntegral (d : Decimal) : Prop := tenTo d.scale ∣ d.coefficient

instance (d : Decimal) : Decidable d.IsIntegral := inferInstanceAs (Decidable (_ ∣ _))

/-- A decimal whose text is not that of a 64-bit integer: a number that is not
negative, and either not whole or greater than every such integer. -/
def Decimal.IsFractionOrHuge (d : Decimal) : Prop :=
  0 ≤ d.numerator ∧
    (¬d.IsIntegral ∨ (Decimal.ofInt64 Int64.maxValue).lessThan d = true)

instance (d : Decimal) : Decidable d.IsFractionOrHuge := inferInstanceAs (Decidable (_ ∧ _))

theorem Decimal.isIntegral_of_scale_normalize {d : Decimal} (h : d.normalize.scale = 0) :
    d.IsIntegral := by
  have hvalue := Decimal.dropZeros_value d.coefficient d.scale
  have hscale : (Decimal.dropZeros d.coefficient d.scale).2 = 0 := h
  rw [hscale, tenTo_zero, Nat.mul_one] at hvalue
  exact ⟨_, by rw [← hvalue, Nat.mul_comm]⟩

/-- A whole number above all 64-bit integers has more than 63 bits. -/
theorem Decimal.twoTo_le_of_maxValue_lessThan {d : Decimal} (hscale : d.normalize.scale = 0)
    (h : (Decimal.ofInt64 Int64.maxValue).lessThan d = true) :
    twoTo 63 ≤ d.normalize.coefficient := by
  obtain ⟨greatest, hgreatest, hbound⟩ : ∃ greatest : Nat,
      (Decimal.ofInt64 Int64.maxValue).numerator = greatest ∧ greatest + 1 = twoTo 63 :=
    ⟨9223372036854775807, by decide, rfl⟩
  have hone : tenTo (Decimal.ofInt64 Int64.maxValue).scale = 1 := rfl
  have hvalue : d.normalize.coefficient * tenTo d.scale = d.coefficient := by
    have hdropped : (Decimal.dropZeros d.coefficient d.scale).2 = 0 := hscale
    have hkept := Decimal.dropZeros_value d.coefficient d.scale
    rwa [hdropped, tenTo_zero, Nat.mul_one] at hkept
  have hnumerator : d.numerator ≤ d.coefficient := by
    rw [Decimal.numerator]
    split <;> omega
  have hlt : greatest * tenTo d.scale < d.normalize.coefficient * tenTo d.scale := by
    rw [Decimal.lessThan, decide_eq_true_iff, Decimal.aligned, hgreatest, hone] at h
    dsimp only at h
    rw [Int.natCast_one, Int.mul_one] at h
    rw [hvalue]
    exact_mod_cast Int.lt_of_lt_of_le h hnumerator
  have hcoefficient := Nat.lt_of_mul_lt_mul_right hlt
  omega

/-- Its normalized form has no sign, and a fraction or more than 63 bits. -/
theorem Decimal.IsFractionOrHuge.normalize {d : Decimal} (h : d.IsFractionOrHuge) :
    d.normalize.negative = false ∧
      (d.normalize.scale ≠ 0 ∨ twoTo 63 ≤ d.normalize.coefficient) := by
  obtain ⟨hnonneg, hform⟩ := h
  constructor
  · cases hnegative : d.negative with
    | false => simp [Decimal.normalize, hnegative]
    | true =>
      rw [Decimal.numerator, if_pos hnegative] at hnonneg
      have hzero : d.coefficient = 0 := by omega
      simp [Decimal.normalize, hzero]
  · by_cases hscale : d.normalize.scale = 0
    · rcases hform with hfraction | hhuge
      · exact absurd (Decimal.isIntegral_of_scale_normalize hscale) hfraction
      · exact .inr (Decimal.twoTo_le_of_maxValue_lessThan hscale hhuge)
    · exact .inl hscale

theorem map_point (chars : List Char) :
    (chars.map fun c => if c = '.' then '.' else c) = chars := by
  have hsame : (fun c : Char => if c = '.' then '.' else c) = id := by
    funext c
    dsimp only [id]
    split
    · rename_i h
      exact h.symm
    · rfl
  rw [hsame, List.map_id]

/-- Such a decimal is read as its normalized form. -/
theorem spells_decimal {d : Decimal} {rest : List Char} (h : d.IsFractionOrHuge)
    (hends : Ends rest) : Spells {} d.toChars rest [.decimal d.normalize] := by
  obtain ⟨hpositive, hform⟩ := h.normalize
  have hchars : d.toChars =
      Decimal.magnitudeChars d.normalize.coefficient d.normalize.scale := by
    rw [Decimal.toChars, hpositive, if_neg Bool.false_ne_true]
  have hinteger : integerValue? '.'
      (Decimal.magnitudeChars d.normalize.coefficient d.normalize.scale) = none := by
    by_cases hscale : d.normalize.scale = 0
    · have hhuge := hform.resolve_left (fun h => h hscale)
      rw [hscale, Decimal.magnitudeChars_zero, integerValue?_digitsOf,
        if_neg (Nat.not_lt.mpr hhuge)]
    · rw [Decimal.magnitudeChars_of_ne_zero _ hscale, integerValue?, if_pos]
      exact List.any_eq_true.mpr
        ⟨'.', List.mem_append_right _ List.mem_cons_self, rfl⟩
  have hread := Decimal.readChars_toChars d
  rw [hchars] at hread ⊢
  refine spells_magnitudeChars ?_ hends
  rw [numberKind?, hinteger]
  dsimp only
  rw [map_point, hread]

/-! ## Symbols -/

/-- A bracket, the comma and the minus sign are read whatever follows. -/
theorem spells_symbol (c : Char) (kind : TokenKind) (rest : List Char)
    (h : (c, kind) ∈ [('(', TokenKind.leftBracket), (')', .rightBracket), (',', .separator),
      ('-', .operator (.binary .subtract))]) : Spells {} [c] rest [kind] := by
  simp only [List.mem_cons, Prod.mk.injEq, List.not_mem_nil, or_false] at h
  rcases h with ⟨rfl, rfl⟩ | ⟨rfl, rfl⟩ | ⟨rfl, rfl⟩ | ⟨rfl, rfl⟩ <;>
    exact spells_lexeme (by rfl) (by rfl)

/-- An operator between spaces. -/
theorem spells_operator (op : BinaryOp) (rest : List Char) :
    Spells {} op.symbol.toList (' ' :: rest) [.operator (.binary op)] := by
  cases op <;> exact spells_lexeme (by rfl) (by rfl)

/-! ## Marking the minus signs -/

/-- `markNegations` on the kinds of tokens alone. -/
def markKinds (previous : Option TokenKind) : List TokenKind → List TokenKind
  | [] => []
  | kind :: kinds => markedKind previous kind :: markKinds (some (markedKind previous kind)) kinds

theorem map_kind_markNegations (previous : Option TokenKind) (tokens : List Token) :
    (markNegations previous tokens).map Token.kind = markKinds previous (tokens.map Token.kind) := by
  induction tokens generalizing previous with
  | nil => rfl
  | cons token tokens ih => exact congrArg (_ :: ·) (ih _)

end FormulaEngine
