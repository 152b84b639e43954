import FormulaEngine.Proofs.Assembly.Steps

/-!
# What parse errors blame

A parse error with a range is about one token: a bracket, a separator, an
operator or the name of a function (`ParseError.token?`).  This module proves
that it is a token of the formula, and not one that only looks like it.

The waiting ones are where this could go wrong, since an error may come long
after the token that it is about.  `State.StemsFrom` is the invariant: whatever
waits was made of a token of the formula.  Reductions take waiting ones away and
put none there (`State.StemsFrom.of_reduces`), every token adds itself at most
(`State.StemsFrom.of_takes`), and what fails blames a waiting one or the token at
hand (`blames_of_reduceTop`, `blames_of_accept`).
-/

namespace FormulaEngine

open Text

/-- The token that a parse error is about, if it is about one. -/
def ParseError.token? : ParseError → Option Token
  | .unmatchedRightBracket range => some ⟨.rightBracket, range⟩
  | .unmatchedLeftBracket range => some ⟨.leftBracket, range⟩
  | .operatorArgumentMismatch op range => some ⟨.operator op, range⟩
  | .functionArgumentMismatch name range | .unknownFunction name range =>
    some ⟨.identifier name, range⟩
  | .misplacedSeparator range => some ⟨.separator, range⟩
  | .unexpectedInteger _ | .unexpectedDecimal _ | .invalidSyntax | .emptyFormula => none

/-- The range of a parse error is that of its token. -/
theorem ParseError.range?_eq (e : ParseError) : e.range? = e.token?.map Token.range := by
  cases e <;> rfl

namespace Assembly

/-- The token that a waiting one was made of. -/
def Pending.token : Pending → Token
  | .operator op range => ⟨.operator op, range⟩
  | .function name range => ⟨.identifier name, range⟩
  | .leftBracket range => ⟨.leftBracket, range⟩

/-- Whatever waits was made of one of the tokens. -/
def State.StemsFrom (s : State) (tokens : List Token) : Prop :=
  ∀ waiting ∈ s.pending, waiting.token ∈ tokens

/-- The error is about one of the tokens, if it is about any. -/
def Blames (e : ParseError) (tokens : List Token) : Prop :=
  ∀ token ∈ e.token?, token ∈ tokens

theorem blames_of_token {e : ParseError} {tokens : List Token} {token : Token}
    (h : token ∈ tokens) (he : e.token? = some token) : Blames e tokens := by
  intro token' htoken'
  rw [he] at htoken'
  cases htoken'
  exact h

theorem blames_of_none {e : ParseError} {tokens : List Token} (he : e.token? = none) :
    Blames e tokens := by
  intro token htoken
  rw [he] at htoken
  cases htoken

/-! ## What waits -/

namespace State.StemsFrom

variable {functions : Functions} {scope : Scope} {s t : State} {tokens : List Token}

theorem tail (h : s.StemsFrom tokens) {waiting : Pending}
    (hpending : s.pending = waiting :: t.pending) : t.StemsFrom tokens := by
  intro other hother
  exact h other (by rw [hpending]; exact List.mem_cons_of_mem _ hother)

theorem pushPending (h : s.StemsFrom tokens) {waiting : Pending}
    (hmem : waiting.token ∈ tokens) : (s.pushPending waiting).StemsFrom tokens :=
  List.forall_mem_cons.mpr ⟨hmem, h⟩

theorem of_reduces (h : Reduces functions s t) (hs : s.StemsFrom tokens) :
    t.StemsFrom tokens := by
  cases h <;> exact hs.tail rfl

theorem of_reducesAll (h : ReducesAll functions s t) (hs : s.StemsFrom tokens) :
    t.StemsFrom tokens := by
  induction h with
  | refl => exact hs
  | tail _ hreduces ih => exact ih.of_reduces hreduces

theorem of_reduceWhile {goesAhead : Pending → Bool}
    (h : reduceWhile functions goesAhead s = .ok t) (hs : s.StemsFrom tokens) :
    t.StemsFrom tokens :=
  hs.of_reducesAll (reducesAll_of_reduceWhile h).1

/-- What waits after a token was made of it, or waited before. -/
theorem of_takes {token : Token} (h : Takes scope token s t) (hs : s.StemsFrom tokens)
    (hmem : token ∈ tokens) : t.StemsFrom tokens := by
  cases h with
  | operand s hdenotes => exact hs
  | name range s hfunction => exact List.forall_mem_cons.mpr ⟨hmem, hs⟩
  | leftBracket range s => exact hs.pushPending hmem
  | rightBracket range hreduces => exact (hs.of_reducesAll hreduces).tail rfl
  | separator range hreduces =>
    have hafter := hs.of_reducesAll hreduces
    exact hafter
  | operator op range hreduce => exact (hs.of_reduceWhile hreduce).pushPending hmem

theorem of_runs {more : List Token} (h : Runs scope more s t) (hs : s.StemsFrom tokens)
    (hsubset : more ⊆ tokens) : t.StemsFrom tokens := by
  induction h with
  | nil s => exact hs
  | cons htakes _ ih =>
    obtain ⟨hmem, hmore⟩ := List.cons_subset.mp hsubset
    exact ih (hs.of_takes htakes hmem) hmore

end State.StemsFrom

/-! ## What is blamed -/

section

variable {functions : Functions} {scope : Scope} {s : State} {tokens : List Token}
  {e : ParseError}

theorem token?_of_reduceOperator {op : Operator} {range : Range}
    (h : reduceOperator op range s = .error e) : e.token? = some ⟨.operator op, range⟩ := by
  unfold reduceOperator at h
  split at h <;> cases h
  rfl

theorem token?_of_reduceFunction {name : String} {range : Range}
    (h : reduceFunction functions name range s = .error e) :
    e.token? = some ⟨.identifier name, range⟩ := by
  unfold reduceFunction at h
  split at h
  · cases h
    rfl
  · dsimp only at h
    split at h <;> cases h
    rfl

/-- A reduction that fails blames the waiting one that should go ahead. -/
theorem blames_of_reduceTop (hs : s.StemsFrom tokens) (h : reduceTop functions s = .error e) :
    Blames e tokens := by
  unfold reduceTop at h
  split at h
  · cases h
    exact blames_of_none rfl
  · rename_i range pending hpending
    cases h
    exact blames_of_token (hs (.leftBracket range) (by simp [hpending])) rfl
  · rename_i op range pending hpending
    exact blames_of_token (hs (.operator op range) (by simp [hpending]))
      (token?_of_reduceOperator h)
  · rename_i name range pending hpending
    exact blames_of_token (hs (.function name range) (by simp [hpending]))
      (token?_of_reduceFunction h)

theorem blames_of_reduceWhile {goesAhead : Pending → Bool} (hs : s.StemsFrom tokens)
    (h : reduceWhile functions goesAhead s = .error e) : Blames e tokens := by
  induction s using reduceWhile.induct functions goesAhead with
  | case1 s hpending =>
    rw [reduceWhile_of_head (by simp [hpending])] at h
    cases h
  | case2 s top rest hpending hahead e' hreduce =>
    rw [reduceWhile_of_error hpending hahead hreduce] at h
    cases h
    exact blames_of_reduceTop hs hreduce
  | case3 s top rest hpending hahead middle hreduce ih =>
    rw [reduceWhile_of_reduceTop hpending hahead hreduce] at h
    exact ih (hs.of_reduces (reduces_of_reduceTop hreduce)) h
  | case4 s top rest hpending hstop =>
    rw [reduceWhile_of_head (by simpa [hpending] using hstop)] at h
    cases h

/-- A token that is refused is blamed, or something that waits. -/
theorem blames_of_accept {token : Token} (hs : s.StemsFrom tokens) (hmem : token ∈ tokens)
    (h : s.accept scope token = .error e) : Blames e tokens := by
  obtain ⟨kind, range⟩ := token
  cases kind with
  | integer value | decimal value | identifier name | leftBracket => cases h
  | rightBracket =>
    change acceptRightBracket scope.functions range s = .error e at h
    unfold acceptRightBracket at h
    split at h
    · rename_i hreduce
      cases h
      exact blames_of_reduceWhile hs hreduce
    · split at h <;> cases h
      exact blames_of_token hmem rfl
  | separator =>
    change acceptSeparator scope.functions range s = .error e at h
    unfold acceptSeparator at h
    split at h
    · rename_i hreduce
      cases h
      exact blames_of_reduceWhile hs hreduce
    · split at h <;> cases h
      exact blames_of_token hmem rfl
  | operator op =>
    change acceptOperator scope.functions op range s = .error e at h
    unfold acceptOperator at h
    split at h <;> cases h
    rename_i hreduce
    exact blames_of_reduceWhile hs hreduce

theorem blames_of_acceptAll {more : List Token} (hs : s.StemsFrom tokens)
    (hsubset : more ⊆ tokens) (h : s.acceptAll scope more = .error e) : Blames e tokens := by
  induction more generalizing s with
  | nil => cases h
  | cons token more ih =>
    obtain ⟨hmem, hmore⟩ := List.cons_subset.mp hsubset
    rw [State.acceptAll] at h
    split at h
    · rename_i haccept
      cases h
      exact blames_of_accept hs hmem haccept
    · rename_i middle haccept
      exact ih (hs.of_takes (takes_of_accept haccept) hmem) hmore h

/-- What is left over at the end has no place in the text. -/
theorem token?_of_root {operands : List Tree} (h : root operands = .error e) :
    e.token? = none := by
  unfold root at h
  split at h
  · cases h
    rfl
  · cases h
  · cases h
    unfold strayError
    split <;> rfl

theorem blames_of_finish (hs : s.StemsFrom tokens) (h : s.finish functions = .error e) :
    Blames e tokens := by
  unfold State.finish at h
  split at h
  · rename_i hreduce
    cases h
    exact blames_of_reduceWhile hs hreduce
  · rename_i middle hreduce
    split at h
    · rename_i range pending hpending
      cases h
      have hmiddle := hs.of_reduceWhile hreduce
      exact blames_of_token (hmiddle (.leftBracket range) (by simp [hpending])) rfl
    · exact blames_of_none (token?_of_root h)

/-- The token that a parse error is about is a token of the formula. -/
theorem blames_of_ofTokens (h : Tree.ofTokens scope tokens = .error e) : Blames e tokens := by
  have hstart : State.start.StemsFrom tokens := List.forall_mem_nil _
  unfold Tree.ofTokens at h
  split at h
  · cases h
    exact blames_of_none rfl
  · split at h
    · rename_i haccept
      cases h
      exact blames_of_acceptAll hstart (List.Subset.refl _) haccept
    · rename_i s haccept
      have hs := hstart.of_runs (runs_of_acceptAll haccept) (List.Subset.refl _)
      exact blames_of_finish hs h

end

end Assembly

end FormulaEngine
