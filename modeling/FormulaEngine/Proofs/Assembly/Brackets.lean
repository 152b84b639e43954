import FormulaEngine.Proofs.Assembly.Blame

/-!
# Errors about brackets

Two parse errors are about brackets.  This module says what they mean in terms
of the tokens alone, without stacks.

* `IsBalanced`: the tokens close every bracket that they open, and never more
  brackets than were opened.
* `FirstOverClosedAt`: a right bracket with nothing to close, and the first such.
* `LastUnclosedAt`: a left bracket that is never closed, and the last such.

Left brackets share a stack with operators and calls, and reductions run between
them.  `Opens` is the run of the brackets alone.  The left brackets among the
waiting ones follow it in every run (`Runs.opens`), because no reduction touches
them (`Reduces.openBrackets_eq`).  `bracket_errors` is the result.
-/

namespace FormulaEngine

open Text

/-- Whether a token opens a bracket. -/
def Token.isLeftBracket (token : Token) : Bool := token.kind == .leftBracket

/-- Whether a token closes a bracket. -/
def Token.isRightBracket (token : Token) : Bool := token.kind == .rightBracket

/-- Whether a parse error is about a bracket. -/
def ParseError.isAboutBracket (e : ParseError) : Bool :=
  e.token?.any fun token => token.isLeftBracket || token.isRightBracket

namespace Assembly

/-! ## Brackets in a list of tokens -/

/-- The tokens close more brackets than they open. -/
def IsOverClosed (tokens : List Token) : Prop :=
  tokens.countP Token.isLeftBracket < tokens.countP Token.isRightBracket

/-- At no place were there more right brackets than left ones. -/
def NeverOverClosed (tokens : List Token) : Prop :=
  ∀ before, before <+: tokens → ¬IsOverClosed before

/-- Every bracket is opened and closed. -/
structure IsBalanced (tokens : List Token) : Prop where
  never : NeverOverClosed tokens
  same : tokens.countP Token.isLeftBracket = tokens.countP Token.isRightBracket

/-- One more right bracket is too many. -/
theorem IsBalanced.isOverClosed {tokens : List Token} (h : IsBalanced tokens) (range : Range) :
    IsOverClosed (tokens ++ [⟨.rightBracket, range⟩]) := by
  rw [IsOverClosed, List.countP_append, List.countP_append, h.same]
  exact Nat.lt_succ_self _

/-- The first right bracket at which there have been more right than left
brackets has this range. -/
def FirstOverClosedAt (tokens : List Token) (range : Range) : Prop :=
  ∃ before after, tokens = before ++ ⟨.rightBracket, range⟩ :: after ∧
    NeverOverClosed before ∧ IsOverClosed (before ++ [⟨.rightBracket, range⟩])

/-- The bracket that was opened before these tokens has a matching right
bracket among them. -/
def Closes (after : List Token) : Prop :=
  ∃ inner range rest, after = inner ++ ⟨.rightBracket, range⟩ :: rest ∧ IsBalanced inner

/-- The last left bracket that has no matching right bracket has this range. -/
def LastUnclosedAt (tokens : List Token) (range : Range) : Prop :=
  ∃ before after, tokens = before ++ ⟨.leftBracket, range⟩ :: after ∧ ¬Closes after ∧
    ∀ before' range' after', after = before' ++ ⟨.leftBracket, range'⟩ :: after' → Closes after'

/-! ## The open brackets -/

/-- The open brackets before and after some tokens, the last one first. -/
inductive Opens : List Token → List Range → List Range → Prop where
  | nil (brackets : List Range) : Opens [] brackets brackets
  | left {tokens : List Token} {brackets brackets' : List Range} (range : Range)
      (h : Opens tokens (range :: brackets) brackets') :
      Opens (⟨.leftBracket, range⟩ :: tokens) brackets brackets'
  | right {tokens : List Token} {brackets brackets' : List Range} (range opening : Range)
      (h : Opens tokens brackets brackets') :
      Opens (⟨.rightBracket, range⟩ :: tokens) (opening :: brackets) brackets'
  | other {token : Token} {tokens : List Token} {brackets brackets' : List Range}
      (hleft : token.isLeftBracket = false) (hright : token.isRightBracket = false)
      (h : Opens tokens brackets brackets') : Opens (token :: tokens) brackets brackets'

namespace Opens

variable {tokens tokens' : List Token} {brackets brackets' brackets'' : List Range}

theorem append (h : Opens tokens brackets brackets') (h' : Opens tokens' brackets' brackets'') :
    Opens (tokens ++ tokens') brackets brackets'' := by
  induction h with
  | nil _ => exact h'
  | left range _ ih => exact .left range (ih h')
  | right range opening _ ih => exact .right range opening (ih h')
  | other hleft hright _ ih => exact .other hleft hright (ih h')

theorem exists_of_append (h : Opens (tokens ++ tokens') brackets brackets'') :
    ∃ brackets', Opens tokens brackets brackets' ∧ Opens tokens' brackets' brackets'' := by
  induction tokens generalizing brackets with
  | nil => exact ⟨brackets, .nil brackets, h⟩
  | cons token tokens ih =>
    cases h with
    | left range h =>
      obtain ⟨middle, hfirst, hrest⟩ := ih h
      exact ⟨middle, .left range hfirst, hrest⟩
    | right range opening h =>
      obtain ⟨middle, hfirst, hrest⟩ := ih h
      exact ⟨middle, .right range opening hfirst, hrest⟩
    | other hleft hright h =>
      obtain ⟨middle, hfirst, hrest⟩ := ih h
      exact ⟨middle, .other hleft hright hfirst, hrest⟩

/-- Left brackets add to the open ones, and right brackets take from them. -/
theorem counts (h : Opens tokens brackets brackets') :
    brackets'.length + tokens.countP Token.isRightBracket =
      brackets.length + tokens.countP Token.isLeftBracket := by
  induction h with
  | nil _ => rfl
  | left range _ ih =>
    rw [List.countP_cons_of_neg Bool.false_ne_true, List.countP_cons_of_pos rfl, ih,
      List.length_cons]
    omega
  | right range opening _ ih =>
    rw [List.countP_cons_of_pos rfl, List.countP_cons_of_neg Bool.false_ne_true,
      List.length_cons]
    omega
  | other hleft hright _ ih =>
    rw [List.countP_cons_of_neg (by simp [hright]), List.countP_cons_of_neg (by simp [hleft]), ih]

/-- Tokens that never miss an open bracket are never over-closed. -/
theorem neverOverClosed (h : Opens tokens [] brackets) : NeverOverClosed tokens := by
  rintro before ⟨after, rfl⟩
  obtain ⟨middle, hbefore, _⟩ := h.exists_of_append
  have hcounts := hbefore.counts
  rw [List.length_nil] at hcounts
  rw [IsOverClosed]
  omega

theorem isBalanced (h : Opens tokens [] []) : IsBalanced tokens := by
  have hcounts := h.counts
  rw [List.length_nil] at hcounts
  exact ⟨h.neverOverClosed, by omega⟩

/-- Where a bracket is not open any more, it was closed. -/
theorem closes {range : Range} {above below : List Range}
    (h : Opens tokens (above ++ range :: below) brackets) (hfew : brackets.length ≤ below.length) :
    ∃ inner closing rest, tokens = inner ++ ⟨.rightBracket, closing⟩ :: rest ∧
      Opens inner above [] := by
  -- What is open above the bracket changes with every token, what is below does not.
  generalize hbrackets : above ++ range :: below = start at h
  induction h generalizing above with
  | nil start =>
    subst hbrackets
    rw [List.length_append, List.length_cons] at hfew
    omega
  | @left _ brackets _ opening _ ih =>
    have hmore : (opening :: above) ++ range :: below = opening :: brackets := by
      rw [List.cons_append, hbrackets]
    obtain ⟨inner, closing, rest, rfl, hinner⟩ := ih hfew hmore
    exact ⟨⟨.leftBracket, opening⟩ :: inner, closing, rest, rfl, .left opening hinner⟩
  | right closing opening _ ih =>
    cases above with
    | nil => exact ⟨[], closing, _, rfl, .nil []⟩
    | cons first above =>
      obtain ⟨_, hbelow⟩ := List.cons.inj hbrackets
      obtain ⟨inner, closing', rest, rfl, hinner⟩ := ih hfew hbelow
      exact ⟨⟨.rightBracket, closing⟩ :: inner, closing', rest, rfl, .right closing first hinner⟩
  | @other token _ _ _ hleft hright _ ih =>
    obtain ⟨inner, closing, rest, rfl, hinner⟩ := ih hfew hbrackets
    exact ⟨token :: inner, closing, rest, rfl, .other hleft hright hinner⟩

/-- The last bracket that is open was open at the start, and all above it was
closed, or it was opened by one of the tokens. -/
theorem last {range : Range} {below : List Range} (h : Opens tokens brackets (range :: below)) :
    (∃ above, brackets = above ++ range :: below ∧ Opens tokens above []) ∨
      ∃ before after, tokens = before ++ ⟨.leftBracket, range⟩ :: after ∧
        Opens after [] [] := by
  generalize hlast : range :: below = last at h ⊢
  induction h with
  | nil start => exact .inl ⟨[], rfl, .nil []⟩
  | @left tokens start last opening _ ih =>
    subst hlast
    rcases ih rfl with ⟨above, habove, hopens⟩ | ⟨before, after, rfl, hopens⟩
    · -- With nothing above the last bracket, it is the one that this token opens.
      cases above with
      | nil =>
        obtain ⟨rfl, _⟩ := List.cons.inj habove
        exact .inr ⟨[], tokens, rfl, hopens⟩
      | cons first above =>
        obtain ⟨rfl, hstart⟩ := List.cons.inj habove
        exact .inl ⟨above, hstart, .left opening hopens⟩
    · exact .inr ⟨⟨.leftBracket, opening⟩ :: before, after, rfl, hopens⟩
  | right closing opening _ ih =>
    rcases ih hlast with ⟨above, rfl, hopens⟩ | ⟨before, after, rfl, hopens⟩
    · exact .inl ⟨opening :: above, rfl, .right closing opening hopens⟩
    · exact .inr ⟨⟨.rightBracket, closing⟩ :: before, after, rfl, hopens⟩
  | @other token _ _ _ hleft hright _ ih =>
    rcases ih hlast with ⟨above, habove, hopens⟩ | ⟨before, after, rfl, hopens⟩
    · exact .inl ⟨above, habove, .other hleft hright hopens⟩
    · exact .inr ⟨token :: before, after, rfl, hopens⟩

/-- Balanced tokens do not close a bracket that was opened before them. -/
theorem not_closes (h : Opens tokens [] []) : ¬Closes tokens := by
  rintro ⟨inner, range, rest, rfl, hinner⟩
  have hprefix : inner ++ [⟨.rightBracket, range⟩] <+: inner ++ ⟨.rightBracket, range⟩ :: rest :=
    ⟨rest, by simp⟩
  exact h.neverOverClosed _ hprefix (hinner.isOverClosed range)

/-- They close every bracket that they open. -/
theorem closes_of_mem (h : Opens tokens [] []) {before after : List Token} {range : Range}
    (htokens : tokens = before ++ ⟨.leftBracket, range⟩ :: after) : Closes after := by
  subst htokens
  obtain ⟨middle, _, hrest⟩ := h.exists_of_append
  cases hrest with
  | left _ hafter =>
    have hstart : Opens after ([] ++ range :: middle) [] := hafter
    obtain ⟨inner, closing, rest, heq, hinner⟩ := hstart.closes (Nat.zero_le _)
    exact ⟨inner, closing, rest, heq, hinner.isBalanced⟩
  | other hleft _ _ => cases hleft

theorem lastUnclosedAt {range : Range} {below : List Range}
    (h : Opens tokens [] (range :: below)) : LastUnclosedAt tokens range := by
  rcases h.last with ⟨above, habove, _⟩ | ⟨before, after, rfl, hafter⟩
  · exact absurd habove.symm (List.append_ne_nil_of_right_ne_nil _ (List.cons_ne_nil _ _))
  · exact ⟨before, after, rfl, hafter.not_closes, fun _ _ _ heq => hafter.closes_of_mem heq⟩

end Opens

/-! ## The brackets that wait -/

/-- The range of a waiting bracket. -/
def Pending.bracket? : Pending → Option Range
  | .leftBracket range => some range
  | .operator _ _ | .function _ _ => none

/-- The brackets among the waiting ones. -/
def State.openBrackets (s : State) : List Range := s.pending.filterMap Pending.bracket?

section

variable {functions : Functions} {scope : Scope} {s t : State} {token : Token}
  {tokens : List Token} {e : ParseError}

/-- No bracket is open when all waiting ones have gone ahead. -/
theorem State.IsOpen.openBrackets_eq_nil (h : s.IsOpen)
    (hclosed : ∀ range rest, s.pending ≠ .leftBracket range :: rest) : s.openBrackets = [] := by
  obtain ⟨operands, pending, counts⟩ := s
  cases pending with
  | nil => rfl
  | cons top rest =>
    have htop := h top rfl
    cases top with
    | leftBracket range => exact absurd rfl (hclosed range rest)
    | operator _ _ | function _ _ => cases htop

/-- Brackets stay where they are in a reduction. -/
theorem Reduces.openBrackets_eq (h : Reduces functions s t) :
    t.openBrackets = s.openBrackets := by
  cases h <;> rfl

theorem ReducesAll.openBrackets_eq (h : ReducesAll functions s t) :
    t.openBrackets = s.openBrackets := by
  induction h with
  | refl => rfl
  | tail _ hreduces ih => rw [hreduces.openBrackets_eq, ih]

theorem Takes.opens (h : Takes scope token s t) :
    Opens [token] s.openBrackets t.openBrackets := by
  cases h with
  | operand s hdenotes =>
    cases hdenotes <;> exact .other rfl rfl (.nil _)
  | name range s hfunction => exact .other rfl rfl (.nil _)
  | leftBracket range s => exact .left range (.nil _)
  | rightBracket range hreduces =>
    rw [← hreduces.openBrackets_eq]
    exact .right range _ (.nil _)
  | separator range hreduces =>
    rw [← hreduces.openBrackets_eq]
    exact .other rfl rfl (.nil _)
  | operator op range hreduce =>
    rw [← (reducesAll_of_reduceWhile hreduce).1.openBrackets_eq]
    exact .other rfl rfl (.nil _)

/-- The waiting brackets are the open brackets of the tokens. -/
theorem Runs.opens (h : Runs scope tokens s t) : Opens tokens s.openBrackets t.openBrackets := by
  induction h with
  | nil s => exact .nil _
  | cons htakes _ ih => exact htakes.opens.append ih

theorem isBalanced_of_ofTokens {tree : Tree} (h : Tree.ofTokens scope tokens = .ok tree) :
    IsBalanced tokens := by
  obtain ⟨s, counts, hruns, hreduces⟩ := exists_runs_of_ofTokens h
  have hclosed : s.openBrackets = [] := hreduces.openBrackets_eq.symm
  have hopens := hruns.opens
  rw [hclosed] at hopens
  exact hopens.isBalanced

/-! ## The errors -/

/-- An operator or a call that goes ahead does not fail about a bracket. -/
theorem isAboutBracket_of_reduceTop {top : Pending} {rest : List Pending}
    (hpending : s.pending = top :: rest) (htop : top.isLeftBracket = false)
    (h : reduceTop functions s = .error e) : e.isAboutBracket = false := by
  unfold reduceTop at h
  rw [hpending] at h
  cases top with
  | leftBracket range => cases htop
  | operator op range =>
    rw [ParseError.isAboutBracket, token?_of_reduceOperator h]
    rfl
  | function name range =>
    rw [ParseError.isAboutBracket, token?_of_reduceFunction h]
    rfl

theorem isAboutBracket_of_reduceWhile {goesAhead : Pending → Bool}
    (hstop : ∀ top, goesAhead top = true → top.isLeftBracket = false)
    (h : reduceWhile functions goesAhead s = .error e) : e.isAboutBracket = false := by
  induction s using reduceWhile.induct functions goesAhead with
  | case1 s hpending =>
    rw [reduceWhile_of_head (by simp [hpending])] at h
    cases h
  | case2 s top rest hpending hahead e' hreduce =>
    rw [reduceWhile_of_error hpending hahead hreduce] at h
    cases h
    exact isAboutBracket_of_reduceTop hpending (hstop top hahead) hreduce
  | case3 s top rest hpending hahead middle hreduce ih =>
    rw [reduceWhile_of_reduceTop hpending hahead hreduce] at h
    exact ih h
  | case4 s top rest hpending hstay =>
    rw [reduceWhile_of_head (by simpa [hpending] using hstay)] at h
    cases h

theorem isAboutBracket_of_reduceToBracket (h : reduceToBracket functions s = .error e) :
    e.isAboutBracket = false :=
  isAboutBracket_of_reduceWhile (fun _ hahead => by simpa using hahead) h

theorem not_isLeftBracket_of_goesBefore {op : Operator} {top : Pending}
    (h : goesBefore op top = true) : top.isLeftBracket = false := by
  cases top with
  | leftBracket range => cases h
  | operator _ _ | function _ _ => rfl

/-- Only a right bracket that has nothing to close fails about a bracket. -/
theorem eq_of_accept (h : s.accept scope token = .error e) (habout : e.isAboutBracket = true) :
    ∃ range, token = ⟨.rightBracket, range⟩ ∧ e = .unmatchedRightBracket range ∧
      s.openBrackets = [] := by
  obtain ⟨kind, range⟩ := token
  cases kind with
  | integer value | decimal value | identifier name | leftBracket => cases h
  | rightBracket =>
    change acceptRightBracket scope.functions range s = .error e at h
    unfold acceptRightBracket at h
    split at h
    · rename_i hreduce
      cases h
      rw [isAboutBracket_of_reduceToBracket hreduce] at habout
      cases habout
    · rename_i middle hreduce
      obtain ⟨hreduces, hopen⟩ := reducesAll_of_reduceToBracket hreduce
      split at h
      · cases h
      · rename_i hpending
        cases h
        refine ⟨range, rfl, rfl, ?_⟩
        rw [← hreduces.openBrackets_eq, hopen.openBrackets_eq_nil hpending]
  | separator =>
    change acceptSeparator scope.functions range s = .error e at h
    unfold acceptSeparator at h
    split at h
    · rename_i hreduce
      cases h
      rw [isAboutBracket_of_reduceToBracket hreduce] at habout
      cases habout
    · split at h <;> cases h
      cases habout
  | operator op =>
    change acceptOperator scope.functions op range s = .error e at h
    unfold acceptOperator at h
    split at h <;> cases h
    rename_i hreduce
    rw [isAboutBracket_of_reduceWhile (fun _ => not_isLeftBracket_of_goesBefore) hreduce] at habout
    cases habout

/-- A bracket that nothing closes is the last open one. -/
theorem eq_of_finish (h : s.finish functions = .error e) (habout : e.isAboutBracket = true) :
    ∃ range below, e = .unmatchedLeftBracket range ∧ s.openBrackets = range :: below := by
  unfold State.finish at h
  split at h
  · rename_i hreduce
    cases h
    rw [isAboutBracket_of_reduceToBracket hreduce] at habout
    cases habout
  · rename_i middle hreduce
    obtain ⟨hreduces, _⟩ := reducesAll_of_reduceToBracket hreduce
    split at h
    · rename_i range pending hpending
      cases h
      refine ⟨range, pending.filterMap Pending.bracket?, rfl, ?_⟩
      rw [← hreduces.openBrackets_eq, State.openBrackets, hpending]
      rfl
    · rw [ParseError.isAboutBracket, token?_of_root h] at habout
      cases habout

/-- A list of tokens fails at one of them, after a run over those before it. -/
theorem exists_runs_of_acceptAll (h : s.acceptAll scope tokens = .error e) :
    ∃ before token after t, tokens = before ++ token :: after ∧ Runs scope before s t ∧
      t.accept scope token = .error e := by
  induction tokens generalizing s with
  | nil => cases h
  | cons token tokens ih =>
    rw [State.acceptAll] at h
    split at h
    · rename_i haccept
      cases h
      exact ⟨[], token, tokens, s, rfl, .nil s, haccept⟩
    · rename_i middle haccept
      obtain ⟨before, token', after, t, rfl, hruns, hfail⟩ := ih h
      exact ⟨token :: before, token', after, t, rfl, .cons (takes_of_accept haccept) hruns, hfail⟩

/-- An error about a bracket comes from a right bracket where none is open, or
from the brackets that are open at the end. -/
theorem opens_of_ofTokens (h : Tree.ofTokens scope tokens = .error e)
    (habout : e.isAboutBracket = true) :
    (∃ before range after, tokens = before ++ ⟨.rightBracket, range⟩ :: after ∧
      Opens before [] [] ∧ e = .unmatchedRightBracket range) ∨
      ∃ range below, Opens tokens [] (range :: below) ∧ e = .unmatchedLeftBracket range := by
  unfold Tree.ofTokens at h
  split at h
  · cases h
    cases habout
  · split at h
    · -- The error comes from a token, so it is a right bracket with nothing to close.
      rename_i haccept
      cases h
      obtain ⟨before, token, after, t, rfl, hruns, hfail⟩ := exists_runs_of_acceptAll haccept
      obtain ⟨range, rfl, rfl, hclosed⟩ := eq_of_accept hfail habout
      have hopens := hruns.opens
      rw [hclosed] at hopens
      exact .inl ⟨before, range, after, rfl, hopens, rfl⟩
    · rename_i s haccept
      obtain ⟨range, below, rfl, hopen⟩ := eq_of_finish h habout
      have hopens := (runs_of_acceptAll haccept).opens
      rw [hopen] at hopens
      exact .inr ⟨range, below, hopens, rfl⟩

end

/-- Tokens whose brackets are not balanced are no formula.  An unmatched right
bracket is the first one that closes too much.  An unmatched left bracket is the
last one that is never closed, and nothing closes too much then. -/
theorem bracket_errors (scope : Scope) (tokens : List Token) :
    (¬IsBalanced tokens → ∃ e, Tree.ofTokens scope tokens = .error e) ∧
      (∀ range, Tree.ofTokens scope tokens = .error (.unmatchedRightBracket range) →
        FirstOverClosedAt tokens range) ∧
      ∀ range, Tree.ofTokens scope tokens = .error (.unmatchedLeftBracket range) →
        NeverOverClosed tokens ∧ LastUnclosedAt tokens range := by
  refine ⟨fun hunbalanced => ?_, fun range h => ?_, fun range h => ?_⟩
  · cases hread : Tree.ofTokens scope tokens with
    | ok tree => exact absurd (isBalanced_of_ofTokens hread) hunbalanced
    | error e => exact ⟨e, rfl⟩
  · rcases opens_of_ofTokens h rfl with ⟨before, range', after, rfl, hopens, he⟩ | ⟨_, _, _, he⟩
    · cases he
      exact ⟨before, after, rfl, hopens.neverOverClosed,
        hopens.isBalanced.isOverClosed range⟩
    · cases he
  · rcases opens_of_ofTokens h rfl with ⟨_, _, _, _, _, he⟩ | ⟨range', below, hopens, he⟩
    · cases he
    · cases he
      exact ⟨hopens.neverOverClosed, hopens.lastUnclosedAt⟩

/-- Tokens of one character each, in a row. -/
def inARow (kinds : List TokenKind) : List Token :=
  kinds.mapIdx fun column kind => ⟨kind, .onLine ⟨1, column + 1⟩ 1⟩

/-- The formula `(1))*(2`. -/
def overClosedTokens : List Token :=
  inARow [.leftBracket, .integer 1, .rightBracket, .rightBracket, .operator (.binary .multiply),
    .leftBracket, .integer 2]

/-- The formula `((1)+(2*(3)`. -/
def unclosedTokens : List Token :=
  inARow [.leftBracket, .leftBracket, .integer 1, .rightBracket, .operator (.binary .add),
    .leftBracket, .integer 2, .operator (.binary .multiply), .leftBracket, .integer 3,
    .rightBracket]

/-- The formula `(*2`, which fails about its operator. -/
def unboundTokens : List Token :=
  inARow [.leftBracket, .operator (.binary .multiply), .integer 2]

theorem bracket_errors_of_nested :
    (¬IsBalanced unboundTokens ∧
        ∃ e, Tree.ofTokens ⟨.empty false, .empty false, false⟩ unboundTokens = .error e) ∧
      FirstOverClosedAt overClosedTokens (.onLine ⟨1, 4⟩ 1) ∧
      NeverOverClosed unclosedTokens ∧ LastUnclosedAt unclosedTokens (.onLine ⟨1, 6⟩ 1) := by
  have hunbalanced : ¬IsBalanced unboundTokens := fun h => absurd h.same (by decide)
  obtain ⟨hfails, -, -⟩ := bracket_errors ⟨.empty false, .empty false, false⟩ unboundTokens
  obtain ⟨-, hright, -⟩ := bracket_errors ⟨.empty false, .empty false, false⟩ overClosedTokens
  obtain ⟨-, -, hleft⟩ := bracket_errors ⟨.empty false, .empty false, false⟩ unclosedTokens
  exact ⟨⟨hunbalanced, hfails hunbalanced⟩, hright _ (by with_unfolding_all rfl),
    hleft _ (by with_unfolding_all rfl)⟩

end Assembly

end FormulaEngine
