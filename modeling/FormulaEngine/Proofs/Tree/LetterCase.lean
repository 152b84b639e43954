import FormulaEngine.Proofs.Assembly.Reading
import FormulaEngine.Proofs.Registry.History
import FormulaEngine.Proofs.Text.Location
import FormulaEngine.Proofs.Token.Respelling
import FormulaEngine.Tree.Reader

/-!
# Reading without regard to case

Lowering the capitals of a text is a respelling (`respelling_toLower`), so the
tokens of the lowered text are those of the text with their names lowered.  A
scope that ignores case finds the same functions and constants under them, and
the assembly goes through the same steps: `State.fold` is the same state with
the names that wait lowered, and `accept_fold` is the step.

`Tree.read_foldCase` is the result: the lowered text has the same tree, or fails
with the same kind of error at the same bytes.
-/

namespace FormulaEngine

open Text

/-! ## Lowering characters -/

/-- Lowering leaves a character alone, or adds 32 to the code of a capital. -/
theorem toLower_cases (c : Char) :
    c.toLower = c ∨ 65 ≤ c.toNat ∧ c.toNat ≤ 90 ∧ c.toLower.toNat = c.toNat + 32 := by
  by_cases hcapital : 'A'.val ≤ c.val ∧ c.val ≤ 'Z'.val
  · right
    have hlower : c.toLower.val = c.val + 32 := congrArg Char.val (dif_pos hcapital)
    have hsum : c.toLower.toNat = (c.val + 32).toNat := congrArg UInt32.toNat hlower
    have hcode : c.toNat = c.val.toNat := rfl
    have hA : 'A'.val.toNat = 65 := rfl
    have hZ : 'Z'.val.toNat = 90 := rfl
    have h32 : UInt32.toNat 32 = 32 := rfl
    rw [UInt32.toNat_add] at hsum
    rw [UInt32.le_iff_toNat_le, UInt32.le_iff_toNat_le] at hcapital
    omega
  · exact .inl (dif_neg hcapital)

theorem isDigit_eq (c : Char) : c.isDigit = decide (48 ≤ c.toNat ∧ c.toNat ≤ 57) := by
  rw [Char.isDigit, Bool.decide_and]
  rfl

theorem isAlpha_eq (c : Char) : c.isAlpha =
    decide (65 ≤ c.toNat ∧ c.toNat ≤ 90 ∨ 97 ≤ c.toNat ∧ c.toNat ≤ 122) := by
  have hupper : c.isUpper = decide (65 ≤ c.toNat ∧ c.toNat ≤ 90) := rfl
  have hlower : c.isLower = (decide (97 ≤ c.toNat) && decide (c.toNat ≤ 122)) := rfl
  have hletter : c.isAlpha = (c.isUpper || c.isLower) := rfl
  rw [hletter, hupper, hlower, Bool.decide_or, Bool.decide_and (97 ≤ c.toNat)]

theorem isExponentMark_eq (c : Char) : Decimal.isExponentMark c =
    decide (c.toNat = 101 ∨ c.toNat = 69) := by
  have h (d : Char) : (c == d) = decide (c.toNat = d.toNat) := by
    rw [Bool.eq_iff_iff, beq_iff_eq, decide_eq_true_eq, Char.toNat_inj]
  rw [Decimal.isExponentMark, Bool.decide_or, h, h]
  rfl

theorem utf8Size_eq {c : Char} (h : c.toNat ≤ 127) : c.utf8Size = 1 := if_pos h

theorem toLower_eq_iff {d : Char} (hd : d.isAlpha = false) (c : Char) :
    c.toLower = d ↔ c = d := by
  rw [isAlpha_eq, decide_eq_false_iff_not] at hd
  rcases toLower_cases c with h | h
  · rw [h]
  · rw [← Char.toNat_inj, ← Char.toNat_inj]
    omega

theorem respelling_toLower {p : Punctuation}
    (hseparator : p.decimalSeparator = '.' ∨ p.decimalSeparator = ',') :
    Respelling p p Char.toLower where
  isAlpha c := by
    rw [isAlpha_eq, isAlpha_eq]
    rcases toLower_cases c with h | h
    · rw [h]
    · rw [decide_eq_decide]
      omega
  isDigit c := by
    rw [isDigit_eq, isDigit_eq]
    rcases toLower_cases c with h | h
    · rw [h]
    · rw [decide_eq_decide]
      omega
  digit c hc := by
    rw [isDigit_eq, decide_eq_true_eq] at hc
    rcases toLower_cases c with h | h
    · exact h
    · omega
  isExponentMark c := by
    rw [isExponentMark_eq, isExponentMark_eq]
    rcases toLower_cases c with h | h
    · rw [h]
    · rw [decide_eq_decide]
      omega
  plain d hd c := by
    have hall : (plainChars.all fun d => !d.isAlpha) = true := by decide
    exact toLower_eq_iff (Bool.not_eq_true' _ ▸ List.all_eq_true.mp hall d hd) c
  decimalSeparator c := by
    refine toLower_eq_iff ?_ c
    rcases hseparator with h | h <;> rw [h] <;> rfl
  argumentSeparator c := by
    refine toLower_eq_iff ?_ c
    unfold Punctuation.argumentSeparator
    split <;> rfl

theorem utf8Size_toLower (c : Char) : c.toLower.utf8Size = c.utf8Size := by
  rcases toLower_cases c with h | h
  · rw [h]
  · rw [utf8Size_eq (by omega), utf8Size_eq (by omega)]

/-! ## Positions -/

/-- A position lies at the same byte of the lowered text. -/
theorem byteOffset_foldCase {p : Punctuation} (hrespelling : Respelling p p Char.toLower)
    (text : String) (target : Position) :
    byteOffset (foldCase text) target = byteOffset text target := by
  rw [byteOffset, byteOffset, foldCase, String.toList_ofList]
  generalize Position.first = here
  induction text.toList generalizing here with
  | nil => rfl
  | cons c rest ih =>
    rw [List.map_cons, byteOffsetFrom, byteOffsetFrom, utf8Size_toLower, hrespelling.after, ih]

theorem utf8ByteSize_foldCase (text : String) :
    (foldCase text).utf8ByteSize = text.utf8ByteSize := by
  have hsize : ∀ chars : List Char,
      (String.ofList (chars.map Char.toLower)).utf8ByteSize = (String.ofList chars).utf8ByteSize := by
    intro chars
    induction chars with
    | nil => rfl
    | cons c rest ih =>
      rw [List.map_cons, utf8ByteSize_ofList_cons, utf8ByteSize_ofList_cons, utf8Size_toLower, ih]
  rw [foldCase, hsize, String.ofList_toList]

/-! ## Errors -/

/-- A parse error about a lowered name. -/
def ParseError.fold : ParseError → ParseError
  | .functionArgumentMismatch name range => .functionArgumentMismatch (foldCase name) range
  | .unknownFunction name range => .unknownFunction (foldCase name) range
  | e => e

theorem ParseError.range?_fold (e : ParseError) : e.fold.range? = e.range? := by
  cases e <;> rfl

theorem ParseError.code_fold (e : ParseError) : e.fold.code = e.code := by
  cases e <;> rfl

/-- The cause of the failure of the lowered text. -/
def Cause.fold : Cause → Cause
  | .lexical e => .lexical (e.respell Char.toLower)
  | .parse e => .parse e.fold
  | .evaluation e => .evaluation e
  | .argument e => .argument e

theorem Cause.code_fold (cause : Cause) : cause.fold.code = cause.code := by
  cases cause with
  | lexical e => cases e <;> rfl
  | parse e => exact e.code_fold
  | evaluation e | argument e => rfl

theorem Cause.range?_fold (cause : Cause) : cause.fold.range? = cause.range? := by
  cases cause with
  | lexical e => cases e <;> rfl
  | parse e => exact e.range?_fold
  | evaluation e | argument e => rfl

/-- The failure of the lowered text. -/
def Failure.fold (failure : Failure) : Failure :=
  ⟨failure.cause.fold, foldCase failure.source, failure.location⟩

theorem Failure.fold_of {p : Punctuation} (hrespelling : Respelling p p Char.toLower)
    (text : String) (cause : Cause) :
    (Failure.of text cause).fold = Failure.of (foldCase text) cause.fold := by
  unfold Failure.fold Failure.of
  rw [Cause.range?_fold, utf8ByteSize_foldCase]
  dsimp only
  cases cause.range? with
  | none => rfl
  | some range =>
    dsimp only [Span.ofRange]
    rw [byteOffset_foldCase hrespelling, byteOffset_foldCase hrespelling]

/-! ## Reductions -/

/-- A scope in which names are looked up without regard to case. -/
structure Scope.IgnoresCase (scope : Scope) : Prop where
  functions : scope.functions.caseSensitive = false
  constants : scope.constants.caseSensitive = false
  policy : scope.caseSensitive = false

namespace Assembly

/-- A waiting one with its name lowered, if it has one. -/
def Pending.fold : Pending → Pending
  | .function name range => .function (foldCase name) range
  | pending => pending

/-- The same stacks with the names that wait lowered. -/
def State.fold (s : State) : State := { s with pending := s.pending.map Pending.fold }

/-- What comes of the lowered state. -/
def foldOutcome {α : Type} (lower : α → α) : Except ParseError α → Except ParseError α
  | .error e => .error e.fold
  | .ok a => .ok (lower a)

/-- A registry that ignores case finds the same under a lowered name. -/
theorem find?_foldCase {noun : Noun} {α : Type} {registry : Registry noun α}
    (h : registry.caseSensitive = false) (name : String) :
    registry.find? (foldCase name) = registry.find? name := by
  have hcanonical := registry.find?_canonical name
  rwa [h] at hcanonical

theorem reduceOperator_fold (op : Operator) (range : Range) (s : State) :
    reduceOperator op range s.fold = foldOutcome State.fold (reduceOperator op range s) := by
  obtain ⟨operands, pending, counts⟩ := s
  unfold reduceOperator
  cases op with
  | negate => cases operands <;> rfl
  | binary op =>
    cases operands with
    | nil => rfl
    | cons right operands => cases operands <;> rfl

variable {functions : Functions} (hfunctions : functions.caseSensitive = false)

include hfunctions

theorem reduceFunction_fold (name : String) (range : Range) (s : State) :
    reduceFunction functions (foldCase name) range s.fold =
      foldOutcome State.fold (reduceFunction functions name range s) := by
  obtain ⟨operands, pending, counts⟩ := s
  unfold reduceFunction State.fold
  rw [find?_foldCase hfunctions]
  cases functions.find? name with
  | none => rfl
  | some entry =>
    dsimp only
    split <;> rfl

theorem reduceTop_fold (s : State) :
    reduceTop functions s.fold = foldOutcome State.fold (reduceTop functions s) := by
  obtain ⟨operands, pending, counts⟩ := s
  rw [reduceTop.eq_def, reduceTop.eq_def]
  cases pending with
  | nil => rfl
  | cons top pending =>
    cases top with
    | leftBracket range => rfl
    | operator op range => exact reduceOperator_fold op range ⟨operands, pending, counts⟩
    | function name range =>
      exact reduceFunction_fold hfunctions name range ⟨operands, pending, counts⟩

/-- Reductions go as far with lowered names. -/
theorem reduceWhile_fold {goesAhead : Pending → Bool}
    (hgoes : ∀ pending, goesAhead pending.fold = goesAhead pending) (s : State) :
    reduceWhile functions goesAhead s.fold =
      foldOutcome State.fold (reduceWhile functions goesAhead s) := by
  have hhead : ∀ {s : State}, (∀ top ∈ s.pending.head?, goesAhead top = false) →
      ∀ top ∈ s.fold.pending.head?, goesAhead top = false := by
    intro s hstay top htop
    rw [State.fold, List.head?_map] at htop
    obtain ⟨first, hfirst, rfl⟩ := Option.map_eq_some_iff.mp htop
    rw [hgoes, hstay first hfirst]
  induction s using reduceWhile.induct functions goesAhead with
  | case1 s hpending =>
    have hstay : ∀ top ∈ s.pending.head?, goesAhead top = false := by
      rw [hpending]
      nofun
    rw [reduceWhile_of_head hstay, reduceWhile_of_head (hhead hstay)]
    rfl
  | case2 s top rest hpending hahead e hreduce =>
    have hpending' : s.fold.pending = top.fold :: rest.map Pending.fold := by
      rw [State.fold, hpending, List.map_cons]
    have hreduce' := reduceTop_fold hfunctions s
    rw [hreduce] at hreduce'
    rw [reduceWhile_of_error hpending hahead hreduce,
      reduceWhile_of_error hpending' ((hgoes top).trans hahead) hreduce']
    rfl
  | case3 s top rest hpending hahead middle hreduce ih =>
    have hpending' : s.fold.pending = top.fold :: rest.map Pending.fold := by
      rw [State.fold, hpending, List.map_cons]
    have hreduce' := reduceTop_fold hfunctions s
    rw [hreduce] at hreduce'
    rw [reduceWhile_of_reduceTop hpending hahead hreduce,
      reduceWhile_of_reduceTop hpending' ((hgoes top).trans hahead) hreduce', ih]
  | case4 s top rest hpending hstop =>
    have hstay : ∀ top ∈ s.pending.head?, goesAhead top = false := by
      simpa [hpending] using hstop
    rw [reduceWhile_of_head hstay, reduceWhile_of_head (hhead hstay)]
    rfl

theorem reduceToBracket_fold (s : State) :
    reduceToBracket functions s.fold = foldOutcome State.fold (reduceToBracket functions s) :=
  reduceWhile_fold hfunctions (fun pending => by cases pending <;> rfl) s

omit hfunctions

/-! ## Tokens -/

variable {scope : Scope} (h : scope.IgnoresCase)

include h

theorem acceptIdentifier_fold (name : String) (range : Range) (s : State) :
    acceptIdentifier scope (foldCase name) range s.fold =
      (acceptIdentifier scope name range s).fold := by
  unfold acceptIdentifier
  rw [find?_foldCase h.functions, find?_foldCase h.constants]
  split
  · rfl
  · cases scope.constants.find? name with
    | some entry => rfl
    | none =>
      have hname : canonical scope.caseSensitive (foldCase name) =
          canonical scope.caseSensitive name := by
        rw [h.policy]
        exact foldCase_foldCase name
      dsimp only
      rw [hname]
      rfl

/-- A token with a lowered name takes the same step. -/
theorem accept_fold (token : Token) (s : State) :
    s.fold.accept scope (token.respell Char.toLower) =
      foldOutcome State.fold (s.accept scope token) := by
  obtain ⟨kind, range⟩ := token
  unfold State.accept
  cases kind with
  | integer value | decimal value | leftBracket => rfl
  | identifier name => exact congrArg Except.ok (acceptIdentifier_fold h name range s)
  | rightBracket =>
    change acceptRightBracket _ _ _ = foldOutcome _ (acceptRightBracket _ _ _)
    unfold acceptRightBracket
    rw [reduceToBracket_fold h.functions]
    cases reduceToBracket scope.functions s with
    | error e => rfl
    | ok t =>
      obtain ⟨operands, pending, counts⟩ := t
      cases pending with
      | nil => rfl
      | cons top pending => cases top <;> rfl
  | separator =>
    change acceptSeparator _ _ _ = foldOutcome _ (acceptSeparator _ _ _)
    unfold acceptSeparator
    rw [reduceToBracket_fold h.functions]
    cases reduceToBracket scope.functions s with
    | error e => rfl
    | ok t =>
      obtain ⟨operands, pending, counts⟩ := t
      cases pending with
      | nil => rfl
      | cons top pending => cases top <;> cases counts <;> rfl
  | operator op =>
    change acceptOperator _ _ _ _ = foldOutcome _ (acceptOperator _ _ _ _)
    unfold acceptOperator
    rw [reduceWhile_fold h.functions fun pending => by cases pending <;> rfl]
    cases reduceWhile scope.functions (goesBefore op) s <;> rfl

theorem acceptAll_fold (tokens : List Token) (s : State) :
    s.fold.acceptAll scope (tokens.map (Token.respell Char.toLower)) =
      foldOutcome State.fold (s.acceptAll scope tokens) := by
  induction tokens generalizing s with
  | nil => rfl
  | cons token tokens ih =>
    rw [List.map_cons, State.acceptAll, State.acceptAll, accept_fold h]
    cases s.accept scope token with
    | error e => rfl
    | ok t => exact ih t

/-! ## Formulas -/

omit h in
theorem fold_of_root {operands : List Tree} {e : ParseError} (hroot : root operands = .error e) :
    e.fold = e := by
  unfold root at hroot
  split at hroot
  · cases hroot
    rfl
  · cases hroot
  · cases hroot
    unfold strayError
    split <;> rfl

theorem finish_fold (s : State) :
    s.fold.finish scope.functions = foldOutcome id (s.finish scope.functions) := by
  unfold State.finish
  rw [reduceToBracket_fold h.functions]
  cases reduceToBracket scope.functions s with
  | error e => rfl
  | ok t =>
    obtain ⟨operands, pending, counts⟩ := t
    have hroot : root operands = foldOutcome id (root operands) := by
      cases hresult : root operands with
      | error e => exact congrArg Except.error (fold_of_root hresult).symm
      | ok tree => rfl
    cases pending with
    | nil => exact hroot
    | cons top pending =>
      cases top with
      | leftBracket range => rfl
      | operator _ _ | function _ _ => exact hroot

/-- The tokens with lowered names are the same formula. -/
theorem ofTokens_fold (tokens : List Token) :
    Tree.ofTokens scope (tokens.map (Token.respell Char.toLower)) =
      foldOutcome id (Tree.ofTokens scope tokens) := by
  have hrun : State.start.acceptAll scope (tokens.map (Token.respell Char.toLower)) = _ :=
    acceptAll_fold h tokens .start
  unfold Tree.ofTokens
  rw [List.isEmpty_map, hrun]
  split
  · rfl
  · cases State.start.acceptAll scope tokens with
    | error e => rfl
    | ok s => exact finish_fold h s

end Assembly

/-- A lowered text has the same tree, or fails in the same way. -/
theorem Tree.read_foldCase {p : Punctuation} (hrespelling : Respelling p p Char.toLower)
    {scope : Scope} (h : scope.IgnoresCase) (text : String) :
    Tree.read p scope (foldCase text) = (Tree.read p scope text).mapError Failure.fold := by
  have htokens : tokenize p (foldCase text) = _ := hrespelling.tokenize text
  unfold Tree.read
  rw [htokens]
  cases tokenize p text with
  | error e => exact congrArg Except.error (Failure.fold_of hrespelling text (.lexical e)).symm
  | ok tokens =>
    dsimp only [Except.map, Except.mapError]
    rw [Assembly.ofTokens_fold h]
    cases Tree.ofTokens scope tokens with
    | error e => exact congrArg Except.error (Failure.fold_of hrespelling text (.parse e)).symm
    | ok tree => rfl

end FormulaEngine
