import FormulaEngine.Decimal.Reader
import FormulaEngine.Text.Blank
import FormulaEngine.Text.Run
import FormulaEngine.Token

/-!
# Reading tokens

A text is read from left to right.  Gaps are skipped, and at every other
character the longest lexeme that starts there is taken: a number, else an
identifier, else a bracket, separator or operator.  `readLexeme?` takes one
lexeme, and `readLexeme?_splits` says that the lexeme and what follows it
make up the text.

Which characters separate the fraction of a number and the arguments of a
call is a choice of `Punctuation`.

A minus sign is read as the subtraction first.  `markNegations` then turns
every one that stands where an operand begins into the unary minus.
-/

namespace FormulaEngine

open Text

/-- The characters whose meaning can be chosen. -/
structure Punctuation where
  decimalSeparator : Char := '.'
  deriving DecidableEq

/-- Arguments are separated by a semicolon when numbers use the comma. -/
def Punctuation.argumentSeparator (p : Punctuation) : Char :=
  if p.decimalSeparator = ',' then ';' else ','

/-- A token kind, the characters it was read from and those that follow. -/
structure Lexeme where
  kind : TokenKind
  text : List Char
  rest : List Char

/-! ## Numbers -/

/-- Splits off a decimal separator with at least one digit after it. -/
def splitFraction (decimalSeparator : Char) : List Char → List Char × List Char
  | [] => ([], [])
  | c :: rest =>
    if c = decimalSeparator then
      match splitRun Char.isDigit rest with
      | ([], _) => ([], c :: rest)
      | (digit :: digits, after) => (c :: digit :: digits, after)
    else ([], c :: rest)

/-- Splits off an optional sign. -/
def splitOptionalSign : List Char → List Char × List Char
  | '+' :: rest => (['+'], rest)
  | '-' :: rest => (['-'], rest)
  | chars => ([], chars)

/-- Splits off an exponent mark, an optional sign and at least one digit. -/
def splitExponent : List Char → List Char × List Char
  | [] => ([], [])
  | c :: rest =>
    if Decimal.isExponentMark c then
      let (sign, afterSign) := splitOptionalSign rest
      match splitRun Char.isDigit afterSign with
      | ([], _) => ([], c :: rest)
      | (digit :: digits, after) => (c :: (sign ++ digit :: digits), after)
    else ([], c :: rest)

/-- Splits off the longest number literal; it is empty if the text does not
start with a digit. -/
def splitNumber (decimalSeparator : Char) (chars : List Char) : List Char × List Char :=
  match splitRun Char.isDigit chars with
  | ([], _) => ([], chars)
  | (digit :: digits, afterWhole) =>
    let (fraction, afterFraction) := splitFraction decimalSeparator afterWhole
    let (exponent, after) := splitExponent afterFraction
    (digit :: digits ++ fraction ++ exponent, after)

/-- The value of a literal without fraction and exponent, if it is a 64-bit
integer. -/
def integerValue? (decimalSeparator : Char) (literal : List Char) : Option Int64 :=
  if literal.any (fun c => c == decimalSeparator || Decimal.isExponentMark c) then none
  else
    match Decimal.natOfDigits? literal with
    | some n => if n < twoTo 63 then some (Int64.ofNat n) else none
    | none => none

/-- What a number literal stands for: an integer if it can be one, otherwise
a decimal. -/
def numberKind? (decimalSeparator : Char) (literal : List Char) : Option TokenKind :=
  match integerValue? decimalSeparator literal with
  | some n => some (.integer n)
  | none =>
    match Decimal.readChars
        (literal.map fun c => if c = decimalSeparator then '.' else c) with
    | .ok d => some (.decimal d)
    | .error _ => none

/-- Reads a number. -/
def readNumber? (decimalSeparator : Char) (chars : List Char) : Option Lexeme :=
  match splitNumber decimalSeparator chars with
  | ([], _) => none
  | (c :: literal, after) =>
    match numberKind? decimalSeparator (c :: literal) with
    | some kind => some ⟨kind, c :: literal, after⟩
    | none => none

/-! ## Identifiers and symbols -/

/-- The characters that can start an identifier. -/
def isIdentifierStart (c : Char) : Bool := c.isAlpha || c == '_'

/-- The characters that can continue an identifier. -/
def isIdentifierPart (c : Char) : Bool := c.isAlphanum || c == '_'

/-- Reads an identifier. -/
def readIdentifier? : List Char → Option Lexeme
  | [] => none
  | c :: rest =>
    if isIdentifierStart c then
      let (part, after) := splitRun isIdentifierPart rest
      some ⟨.identifier (String.ofList (c :: part)), c :: part, after⟩
    else none

/-- The lexeme of a binary operator. -/
def binaryLexeme (op : BinaryOp) (text rest : List Char) : Option Lexeme :=
  some ⟨.operator (.binary op), text, rest⟩

/-- Reads an operator, two characters before one. -/
def readOperator? : List Char → Option Lexeme
  | '+' :: rest => binaryLexeme .add ['+'] rest
  | '-' :: rest => binaryLexeme .subtract ['-'] rest
  | '*' :: rest => binaryLexeme .multiply ['*'] rest
  | '/' :: rest => binaryLexeme .divide ['/'] rest
  | '%' :: rest => binaryLexeme .modulo ['%'] rest
  | '^' :: rest => binaryLexeme .power ['^'] rest
  | '&' :: '&' :: rest => binaryLexeme .and ['&', '&'] rest
  | '&' :: rest => binaryLexeme .and ['&'] rest
  | '|' :: '|' :: rest => binaryLexeme .or ['|', '|'] rest
  | '|' :: rest => binaryLexeme .or ['|'] rest
  | '<' :: '=' :: rest => binaryLexeme .lessOrEqual ['<', '='] rest
  | '≤' :: rest => binaryLexeme .lessOrEqual ['≤'] rest
  | '<' :: rest => binaryLexeme .lessThan ['<'] rest
  | '>' :: '=' :: rest => binaryLexeme .greaterOrEqual ['>', '='] rest
  | '≥' :: rest => binaryLexeme .greaterOrEqual ['≥'] rest
  | '>' :: rest => binaryLexeme .greaterThan ['>'] rest
  | '!' :: '=' :: rest => binaryLexeme .notEqual ['!', '='] rest
  | '≠' :: rest => binaryLexeme .notEqual ['≠'] rest
  | '=' :: '=' :: rest => binaryLexeme .equal ['=', '='] rest
  | '=' :: rest => binaryLexeme .equal ['='] rest
  | _ => none

/-- Reads a bracket, an argument separator or an operator. -/
def readSymbol? (argumentSeparator : Char) : List Char → Option Lexeme
  | [] => none
  | c :: rest =>
    if c = '(' then some ⟨.leftBracket, [c], rest⟩
    else if c = ')' then some ⟨.rightBracket, [c], rest⟩
    else if c = argumentSeparator then some ⟨.separator, [c], rest⟩
    else readOperator? (c :: rest)

/-! ## Lexemes -/

/-- Reads the lexeme at the start of a text. -/
def readLexeme? (p : Punctuation) (chars : List Char) : Option Lexeme :=
  match readNumber? p.decimalSeparator chars with
  | some lexeme => some lexeme
  | none =>
    match readIdentifier? chars with
    | some lexeme => some lexeme
    | none => readSymbol? p.argumentSeparator chars

/-- A lexeme is a nonempty beginning of the characters it is read from. -/
def Lexeme.SplitsFrom (lexeme : Lexeme) (chars : List Char) : Prop :=
  lexeme.text ≠ [] ∧ lexeme.text ++ lexeme.rest = chars

theorem splitFraction_append (s : Char) (chars : List Char) :
    (splitFraction s chars).1 ++ (splitFraction s chars).2 = chars := by
  cases chars with
  | nil => rfl
  | cons c rest =>
    rw [splitFraction]
    have h := splitRun_append Char.isDigit rest
    split
    · split
      · rfl
      · rename_i heq
        rw [heq] at h
        simpa using h
    · rfl

theorem splitOptionalSign_append (chars : List Char) :
    (splitOptionalSign chars).1 ++ (splitOptionalSign chars).2 = chars := by
  unfold splitOptionalSign
  split <;> rfl

theorem splitExponent_append (chars : List Char) :
    (splitExponent chars).1 ++ (splitExponent chars).2 = chars := by
  cases chars with
  | nil => rfl
  | cons c rest =>
    rw [splitExponent]
    have h1 := splitOptionalSign_append rest
    have h2 := splitRun_append Char.isDigit (splitOptionalSign rest).2
    split
    · dsimp only
      split
      · rfl
      · rename_i heq
        rw [heq] at h2
        simp only [List.cons_append, List.append_assoc] at h2 ⊢
        rw [h2, h1]
    · rfl

theorem splitNumber_append (s : Char) (chars : List Char) :
    (splitNumber s chars).1 ++ (splitNumber s chars).2 = chars := by
  rw [splitNumber]
  have h := splitRun_append Char.isDigit chars
  split
  · rfl
  · rename_i digit digits after heq
    rw [heq] at h
    have h1 := splitFraction_append s after
    have h2 := splitExponent_append (splitFraction s after).2
    dsimp only
    rw [List.append_assoc, List.append_assoc, h2, h1]
    exact h

theorem readNumber?_splits {s : Char} {chars : List Char} {lexeme : Lexeme}
    (h : readNumber? s chars = some lexeme) : lexeme.SplitsFrom chars := by
  have ha := splitNumber_append s chars
  unfold readNumber? at h
  split at h
  · exact nomatch h
  · rename_i heq
    rw [heq] at ha
    split at h
    · cases h
      exact ⟨nofun, ha⟩
    · exact nomatch h

theorem readIdentifier?_splits {chars : List Char} {lexeme : Lexeme}
    (h : readIdentifier? chars = some lexeme) : lexeme.SplitsFrom chars := by
  unfold readIdentifier? at h
  split at h
  · exact nomatch h
  · split at h
    · rename_i c rest _
      cases h
      exact ⟨nofun, congrArg (c :: ·) (splitRun_append isIdentifierPart rest)⟩
    · exact nomatch h

theorem readOperator?_splits {chars : List Char} {lexeme : Lexeme}
    (h : readOperator? chars = some lexeme) : lexeme.SplitsFrom chars := by
  unfold readOperator? at h
  split at h <;> first | (cases h; exact ⟨nofun, rfl⟩) | exact nomatch h

theorem readSymbol?_splits {s : Char} {chars : List Char} {lexeme : Lexeme}
    (h : readSymbol? s chars = some lexeme) : lexeme.SplitsFrom chars := by
  unfold readSymbol? at h
  split at h
  · exact nomatch h
  · split at h
    · cases h
      exact ⟨nofun, rfl⟩
    · split at h
      · cases h
        exact ⟨nofun, rfl⟩
      · split at h
        · cases h
          exact ⟨nofun, rfl⟩
        · exact readOperator?_splits h

/-- Reading a lexeme splits the text into it and the rest. -/
theorem readLexeme?_splits {p : Punctuation} {chars : List Char} {lexeme : Lexeme}
    (h : readLexeme? p chars = some lexeme) : lexeme.SplitsFrom chars := by
  unfold readLexeme? at h
  split at h
  · rename_i heq
    cases h
    exact readNumber?_splits heq
  · split at h
    · rename_i heq
      cases h
      exact readIdentifier?_splits heq
    · exact readSymbol?_splits h

theorem Lexeme.SplitsFrom.length_rest_lt {lexeme : Lexeme} {chars : List Char}
    (h : lexeme.SplitsFrom chars) : lexeme.rest.length < chars.length := by
  have h1 := List.length_pos_iff.2 h.1
  have h2 := congrArg List.length h.2
  rw [List.length_append] at h2
  omega

/-! ## Whole texts -/

/-- The error for a character at which no lexeme starts. -/
def lexicalErrorAt (p : Punctuation) (position : Position) (c : Char) (rest : List Char) :
    LexicalError :=
  if c.isDigit then
    .invalidNumber
      (String.ofList
        ((c :: rest).takeWhile fun x => x.isAlphanum || x == p.decimalSeparator))
      position
  else .unexpectedCharacter c position

/-- Reads the tokens of a text that starts at `position`, with every minus
sign as a subtraction. -/
def readTokens (p : Punctuation) (position : Position) (chars : List Char) :
    Except LexicalError (List Token) :=
  match chars with
  | [] => .ok []
  | c :: rest =>
    if isGap c then readTokens p (position.after c) rest
    else
      match _h : readLexeme? p (c :: rest) with
      | none => .error (lexicalErrorAt p position c rest)
      | some lexeme =>
        match readTokens p (position.afterAll lexeme.text) lexeme.rest with
        | .error e => .error e
        | .ok tokens =>
          .ok (⟨lexeme.kind, Range.onLine position lexeme.text.length⟩ :: tokens)
termination_by chars.length
decreasing_by
  · exact Nat.lt_succ_self _
  · exact (readLexeme?_splits _h).length_rest_lt

/-- Whether an operand begins after this token, or at the start of the text. -/
def operandFollows : Option TokenKind → Bool
  | none | some (.operator _) | some .leftBracket | some .separator => true
  | _ => false

/-- The kind of a token that follows `previous`: a subtraction where an
operand begins is the unary minus. -/
def markedKind (previous : Option TokenKind) (kind : TokenKind) : TokenKind :=
  if kind = .operator (.binary .subtract) && operandFollows previous then
    .operator .negate
  else kind

/-- Marks the unary minus signs of a list of tokens that follows `previous`. -/
def markNegations (previous : Option TokenKind) : List Token → List Token
  | [] => []
  | token :: tokens =>
    let kind := markedKind previous token.kind
    ⟨kind, token.range⟩ :: markNegations (some kind) tokens

/-- Splits a text into tokens. -/
def tokenize (p : Punctuation) (text : String) : Except LexicalError (List Token) :=
  match readTokens p .first text.toList with
  | .error e => .error e
  | .ok tokens => .ok (markNegations none tokens)

end FormulaEngine
