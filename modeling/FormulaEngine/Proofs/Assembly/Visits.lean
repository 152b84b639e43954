import FormulaEngine.Proofs.Assembly.Reading

/-!
# The states of an assembly

A token may let many waiting ones go ahead before it is taken, and one of them
may fail.  What the stacks hold between two such steps is seen by no caller.
This module makes these states something to speak about.

An `Assembler` goes in small steps.  Ahead of the next token, or of the end, one
waiting one takes its operands.  When none goes ahead any more, the token is
taken.

* `Assembler.Visits` are the states that it comes through.
* `Assembler.Answers` is what it ends with.
* `Assembler.Follows` says that one assembler does what another does, step by
  step, on states of another kind.  Then it visits the same states and gives the
  same answers.

`threeStacks` is the assembly of trees cut into such steps.  Its answer is the
tree or the error of the tokens (`answers_ofTokens`).
-/

namespace FormulaEngine.Assembly

/-- A way to assemble trees in small steps. -/
structure Assembler (σ : Type) where
  /-- Nothing read yet. -/
  start : σ
  /-- A waiting one takes its operands ahead of the tokens that are left. -/
  ahead : List Token → σ → Option (Except ParseError σ)
  /-- Takes a token when nothing goes ahead of it. -/
  accept : σ → Token → Except ParseError σ
  /-- The tree, when nothing goes ahead of the end. -/
  finish : σ → Except ParseError Tree

namespace Assembler

/-- The assembler comes through a state, with some of the tokens left. -/
inductive Visits {σ : Type} (m : Assembler σ) (tokens : List Token) :
    List Token → σ → Prop where
  | start : Visits m tokens tokens m.start
  | ahead {rest : List Token} {s t : σ} (h : Visits m tokens rest s)
      (hstep : m.ahead rest s = some (.ok t)) : Visits m tokens rest t
  | accept {token : Token} {rest : List Token} {s t : σ} (h : Visits m tokens (token :: rest) s)
      (hstay : m.ahead (token :: rest) s = none) (hstep : m.accept s token = .ok t) :
      Visits m tokens rest t

/-- The assembler ends with an answer: with the error of a step, or with what the
last state gives. -/
inductive Answers {σ : Type} (m : Assembler σ) (tokens : List Token) :
    Except ParseError Tree → Prop where
  | ahead {rest : List Token} {s : σ} {e : ParseError} (h : m.Visits tokens rest s)
      (hstep : m.ahead rest s = some (.error e)) : Answers m tokens (.error e)
  | accept {token : Token} {rest : List Token} {s : σ} {e : ParseError}
      (h : m.Visits tokens (token :: rest) s) (hstay : m.ahead (token :: rest) s = none)
      (hstep : m.accept s token = .error e) : Answers m tokens (.error e)
  | finish {s : σ} (h : m.Visits tokens [] s) (hstay : m.ahead [] s = none) :
      Answers m tokens (m.finish s)

/-! ## Assemblers in step -/

theorem exists_ok_of_map {σ τ : Type} {view : τ → σ} {result : Except ParseError τ} {t : σ}
    (h : result.map view = .ok t) : ∃ t', result = .ok t' ∧ view t' = t := by
  cases result with
  | error e => cases h
  | ok t' => exact ⟨t', rfl, Except.ok.inj h⟩

theorem eq_error_of_map {σ τ : Type} {view : τ → σ} {result : Except ParseError τ}
    {e : ParseError} (h : result.map view = .error e) : result = .error e := by
  cases result with
  | error e' =>
    cases h
    rfl
  | ok t' => cases h

/-- The assembler `m` does on the views of states what `m'` does on the states. -/
structure Follows {σ τ : Type} (m : Assembler σ) (m' : Assembler τ) (view : τ → σ) : Prop where
  start : m.start = view m'.start
  ahead : ∀ rest s, m.ahead rest (view s) = (m'.ahead rest s).map (Except.map view)
  accept : ∀ token rest s, m'.ahead (token :: rest) s = none →
    m.accept (view s) token = (m'.accept s token).map view
  finish : ∀ s, m'.ahead [] s = none → m.finish (view s) = m'.finish s

namespace Follows

variable {σ τ : Type} {m : Assembler σ} {m' : Assembler τ} {view : τ → σ}
  {tokens : List Token}

/-- Nothing goes ahead in a state if nothing does in its view. -/
theorem ahead_eq_none (h : m.Follows m' view) {rest : List Token} {s : τ} :
    m.ahead rest (view s) = none ↔ m'.ahead rest s = none := by
  rw [h.ahead, Option.map_eq_none_iff]

theorem exists_visits (h : m.Follows m' view) {rest : List Token} {s : σ}
    (hvisits : m.Visits tokens rest s) : ∃ s', m'.Visits tokens rest s' ∧ view s' = s := by
  induction hvisits with
  | start => exact ⟨m'.start, .start, h.start.symm⟩
  | ahead _ hstep ih =>
    obtain ⟨s', hs', rfl⟩ := ih
    rw [h.ahead] at hstep
    obtain ⟨result, hresult, hview⟩ := Option.map_eq_some_iff.mp hstep
    obtain ⟨t', rfl, rfl⟩ := exists_ok_of_map hview
    exact ⟨t', .ahead hs' hresult, rfl⟩
  | accept _ hstay hstep ih =>
    obtain ⟨s', hs', rfl⟩ := ih
    have hstay' := h.ahead_eq_none.mp hstay
    rw [h.accept _ _ s' hstay'] at hstep
    obtain ⟨t', ht', rfl⟩ := exists_ok_of_map hstep
    exact ⟨t', .accept hs' hstay' ht', rfl⟩

theorem visits_view (h : m.Follows m' view) {rest : List Token} {s : τ}
    (hvisits : m'.Visits tokens rest s) : m.Visits tokens rest (view s) := by
  induction hvisits with
  | start =>
    rw [← h.start]
    exact .start
  | ahead _ hstep ih => exact ih.ahead (by rw [h.ahead, hstep]; rfl)
  | accept _ hstay hstep ih =>
    exact ih.accept (h.ahead_eq_none.mpr hstay) (by rw [h.accept _ _ _ hstay, hstep]; rfl)

/-- The visited states are the views of those that the other assembler visits. -/
theorem visits_iff (h : m.Follows m' view) {rest : List Token} {s : σ} :
    m.Visits tokens rest s ↔ ∃ s', m'.Visits tokens rest s' ∧ view s' = s := by
  refine ⟨h.exists_visits, ?_⟩
  rintro ⟨s', hs', rfl⟩
  exact h.visits_view hs'

/-- Every answer is one of the other assembler. -/
theorem answers (h : m.Follows m' view) {answer : Except ParseError Tree}
    (hanswers : m.Answers tokens answer) : m'.Answers tokens answer := by
  cases hanswers with
  | ahead hvisits hstep =>
    obtain ⟨s', hs', rfl⟩ := h.exists_visits hvisits
    rw [h.ahead] at hstep
    obtain ⟨result, hresult, hview⟩ := Option.map_eq_some_iff.mp hstep
    rw [eq_error_of_map hview] at hresult
    exact .ahead hs' hresult
  | accept hvisits hstay hstep =>
    obtain ⟨s', hs', rfl⟩ := h.exists_visits hvisits
    have hstay' := h.ahead_eq_none.mp hstay
    rw [h.accept _ _ s' hstay'] at hstep
    exact .accept hs' hstay' (eq_error_of_map hstep)
  | finish hvisits hstay =>
    obtain ⟨s', hs', rfl⟩ := h.exists_visits hvisits
    have hstay' := h.ahead_eq_none.mp hstay
    rw [h.finish s' hstay']
    exact .finish hs' hstay'

end Follows

end Assembler

/-! ## The assembly in small steps -/

/-- Whether a waiting one goes ahead of the next token, or of the end.  Operands,
names and left brackets let nothing go ahead. -/
def goesAheadOf (rest : List Token) : Pending → Bool :=
  match rest with
  | [] => fun waiting => !waiting.isLeftBracket
  | token :: _ =>
    match token.kind with
    | .operator op => goesBefore op
    | .rightBracket | .separator => fun waiting => !waiting.isLeftBracket
    | .integer _ | .decimal _ | .identifier _ | .leftBracket => fun _ => false

/-- A left bracket goes ahead of nothing. -/
theorem goesAheadOf_leftBracket (rest : List Token) (range : Text.Range) :
    goesAheadOf rest (.leftBracket range) = false := by
  cases rest with
  | nil => rfl
  | cons token rest =>
    obtain ⟨kind, _⟩ := token
    cases kind <;> rfl

/-- The assembly of trees in small steps. -/
def threeStacks (scope : Scope) : Assembler State where
  start := .start
  ahead rest s :=
    match s.pending with
    | [] => none
    | top :: _ => if goesAheadOf rest top then some (reduceTop scope.functions s) else none
  -- Nothing goes ahead any more, so the loops in these two have nothing to do.
  accept := State.accept scope
  finish := State.finish scope.functions

section

variable {scope : Scope} {tokens rest : List Token} {s : State}

/-- What goes ahead is the topmost waiting one, in a reduction. -/
theorem exists_goesAheadOf {step : Except ParseError State}
    (h : (threeStacks scope).ahead rest s = some step) :
    ∃ top pending, s.pending = top :: pending ∧ goesAheadOf rest top = true ∧
      reduceTop scope.functions s = step := by
  unfold threeStacks at h
  dsimp only at h
  split at h
  · cases h
  · rename_i top pending hpending
    obtain ⟨hahead, hstep⟩ := Option.ite_none_right_eq_some.mp h
    exact ⟨top, pending, hpending, hahead, Option.some.inj hstep⟩

/-- A loop of reductions begins with one. -/
theorem reduceWhile_of_goesAhead {functions : Functions} {goesAhead : Pending → Bool}
    {top : Pending} {pending : List Pending} (hpending : s.pending = top :: pending)
    (hahead : goesAhead top = true) :
    reduceWhile functions goesAhead s =
      (reduceTop functions s).bind (reduceWhile functions goesAhead) := by
  cases hreduce : reduceTop functions s with
  | error e => exact reduceWhile_of_error hpending hahead hreduce
  | ok t => exact reduceWhile_of_reduceTop hpending hahead hreduce

/-- A token is taken after one that goes ahead of it. -/
theorem accept_of_ahead {token : Token} {step : Except ParseError State}
    (h : (threeStacks scope).ahead (token :: rest) s = some step) :
    s.accept scope token = step.bind fun t => t.accept scope token := by
  obtain ⟨top, pending, hpending, hahead, rfl⟩ := exists_goesAheadOf h
  obtain ⟨kind, range⟩ := token
  cases kind with
  | integer value | decimal value | identifier name | leftBracket =>
    exact absurd hahead Bool.false_ne_true
  | rightBracket =>
    have hloop : reduceToBracket scope.functions s = _ :=
      reduceWhile_of_goesAhead hpending hahead
    change acceptRightBracket scope.functions range s = _
    rw [acceptRightBracket, hloop]
    cases reduceTop scope.functions s <;> rfl
  | separator =>
    have hloop : reduceToBracket scope.functions s = _ :=
      reduceWhile_of_goesAhead hpending hahead
    change acceptSeparator scope.functions range s = _
    rw [acceptSeparator, hloop]
    cases reduceTop scope.functions s <;> rfl
  | operator op =>
    have hloop : reduceWhile scope.functions (goesBefore op) s = _ :=
      reduceWhile_of_goesAhead hpending hahead
    change acceptOperator scope.functions op range s = _
    rw [acceptOperator, hloop]
    cases reduceTop scope.functions s <;> rfl

/-- The end comes after one that goes ahead of it. -/
theorem finish_of_ahead {step : Except ParseError State}
    (h : (threeStacks scope).ahead [] s = some step) :
    s.finish scope.functions = step.bind (State.finish scope.functions) := by
  obtain ⟨top, pending, hpending, hahead, rfl⟩ := exists_goesAheadOf h
  have hloop : reduceToBracket scope.functions s = _ :=
    reduceWhile_of_goesAhead hpending hahead
  rw [State.finish, hloop]
  cases reduceTop scope.functions s <;> rfl

/-- What comes after the steps ahead can wait for them: either one fails, or a
state is visited where nothing goes ahead any more. -/
theorem stay_of_visits {α : Type} {next : State → Except ParseError α}
    (hnext : ∀ s step, (threeStacks scope).ahead rest s = some step → next s = step.bind next)
    (h : (threeStacks scope).Visits tokens rest s) :
    (∃ e, next s = .error e ∧ (threeStacks scope).Answers tokens (.error e)) ∨
      ∃ t, next s = next t ∧ (threeStacks scope).Visits tokens rest t ∧
        (threeStacks scope).ahead rest t = none := by
  -- Every step ahead takes one of the waiting ones away.
  induction hlength : s.pending.length using Nat.strongRecOn generalizing s with
  | ind length ih =>
    cases hahead : (threeStacks scope).ahead rest s with
    | none => exact .inr ⟨s, rfl, h, hahead⟩
    | some step =>
      rw [hnext s step hahead]
      cases step with
      | error e => exact .inl ⟨e, rfl, .ahead h hahead⟩
      | ok t =>
        obtain ⟨_, _, _, _, hreduce⟩ := exists_goesAheadOf hahead
        obtain ⟨top, hpending⟩ := reduceTop_pending hreduce
        refine ih t.pending.length ?_ (h.ahead hahead) rfl
        rw [← hlength, hpending]
        exact Nat.lt_succ_self _

/-- A token that is taken whole is taken in small steps. -/
theorem accept_of_visits {token : Token}
    (h : (threeStacks scope).Visits tokens (token :: rest) s) :
    (∃ e, s.accept scope token = .error e ∧ (threeStacks scope).Answers tokens (.error e)) ∨
      ∃ t, s.accept scope token = .ok t ∧ (threeStacks scope).Visits tokens rest t := by
  rcases stay_of_visits (fun _ _ => accept_of_ahead) h with hfails | ⟨t, ht, hvisits, hstay⟩
  · exact .inl hfails
  · rw [ht]
    cases haccept : t.accept scope token with
    | error e => exact .inl ⟨e, rfl, .accept hvisits hstay haccept⟩
    | ok after => exact .inr ⟨after, rfl, hvisits.accept hstay haccept⟩

/-- The states between the tokens are visited. -/
theorem visits_of_acceptAll {before : List Token} {t : State}
    (h : (threeStacks scope).Visits tokens (before ++ rest) s)
    (haccept : s.acceptAll scope before = .ok t) :
    (threeStacks scope).Visits tokens rest t := by
  induction before generalizing s with
  | nil =>
    cases haccept
    exact h
  | cons token before ih =>
    rw [State.acceptAll] at haccept
    rcases accept_of_visits h with ⟨e, he, -⟩ | ⟨middle, hmiddle, hvisits⟩
    · rw [he] at haccept
      cases haccept
    · rw [hmiddle] at haccept
      exact ih hvisits haccept

/-- From a visited state, the rest of the assembly gives its answer. -/
theorem answers_of_visits (h : (threeStacks scope).Visits tokens rest s) :
    (threeStacks scope).Answers tokens
      ((s.acceptAll scope rest).bind (State.finish scope.functions)) := by
  induction rest generalizing s with
  | nil =>
    change (threeStacks scope).Answers tokens (s.finish scope.functions)
    rcases stay_of_visits (fun _ _ => finish_of_ahead) h with
      ⟨e, he, hanswers⟩ | ⟨t, ht, hvisits, hstay⟩
    · rwa [he]
    · rw [ht]
      exact .finish hvisits hstay
  | cons token rest ih =>
    rw [State.acceptAll]
    rcases accept_of_visits h with ⟨e, he, hanswers⟩ | ⟨t, ht, hvisits⟩
    · rwa [he]
    · rw [ht]
      exact ih hvisits

/-- The small steps give the tree or the error of the tokens. -/
theorem answers_ofTokens (h : tokens ≠ []) :
    (threeStacks scope).Answers tokens (Tree.ofTokens scope tokens) := by
  have hstart : (threeStacks scope).Visits tokens tokens .start := .start
  have hanswers := answers_of_visits hstart
  rw [Tree.ofTokens, if_neg (by simpa using h)]
  cases haccept : State.start.acceptAll scope tokens with
  | error e => rwa [haccept] at hanswers
  | ok t => rwa [haccept] at hanswers

end

end FormulaEngine.Assembly
