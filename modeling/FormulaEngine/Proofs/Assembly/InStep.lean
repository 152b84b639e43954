import FormulaEngine.Proofs.Assembly.Brackets
import FormulaEngine.Proofs.Assembly.Counts
import FormulaEngine.Proofs.Assembly.Visits

/-!
# The stacks in step

The counts of the waiting calls lie on a stack of their own.  Nothing but the
order of the two stacks tells whose count is whose.  And a call waits under its
name, so its function is looked up twice: when the call comes, and when it takes
its arguments.

This module compares the assembly with one that has a single stack for all that
waits.  There a call is one `Frame` with its function and its count, which it
keeps until it takes its arguments.  So no call can be without a count, have the
count of another one, or be of an unknown function, and nothing has to be done
for these cases.

`TwoStacks.toState` forgets the functions and takes the counts out of the calls.
Through this view the assembly follows the other one step by step
(`threeStacks_follows`).  Hence in every state that it comes through, the counts
are those of the waiting calls, in their order.  This is `stacks_stay_in_step`.
-/

namespace FormulaEngine.Assembly

open Text

/-! ## Frames -/

/-- What waits, with all that belongs to it.  A call has its function and the
number of separators that were counted for it. -/
inductive Frame (functions : Functions) where
  | operator (op : Operator) (range : Range)
  | call (name : String) (range : Range) (entry : Entry Function)
      (hfunction : functions.find? name = some entry) (separators : Nat)
  | leftBracket (range : Range)

/-- An operator with its operands in place of them. -/
def applyOperator (op : Operator) (range : Range) (operands : List Tree) :
    Except ParseError (List Tree) :=
  match op, operands with
  | .negate, argument :: operands => .ok (.negate argument :: operands)
  | .binary op, right :: left :: operands => .ok (.binary op left right :: operands)
  | op, _ => .error (.operatorArgumentMismatch op range)

/-- A call with its arguments in place of them. -/
def applyCall (name : String) (range : Range) (entry : Entry Function) (counted : Nat)
    (operands : List Tree) : Except ParseError (List Tree) :=
  let count := argumentCount entry.content.arity counted
  if operands.length < count then .error (.functionArgumentMismatch name range)
  else
    .ok (.call entry.name entry.content.isIdempotent (operands.take count).reverse
      :: operands.drop count)

namespace Frame

variable {functions : Functions}

/-- A frame as a waiting one. -/
def pending : Frame functions → Pending
  | .operator op range => .operator op range
  | .call name range _ _ _ => .function name range
  | .leftBracket range => .leftBracket range

/-- The count of a call: the first argument has no separator. -/
def count? : Frame functions → Option Nat
  | .call _ _ _ _ separators => some (separators + 1)
  | .operator _ _ | .leftBracket _ => none

/-- The operands after a frame has taken its own.  A left bracket takes none. -/
def operandsAfter? (operands : List Tree) : Frame functions → Option (Except ParseError (List Tree))
  | .operator op range => some (applyOperator op range operands)
  | .call name range entry _ separators =>
    some (applyCall name range entry (separators + 1) operands)
  | .leftBracket _ => none

/-- One more separator for the last waiting call. -/
def countSeparator? : List (Frame functions) → Option (List (Frame functions))
  | [] => none
  | .operator op range :: frames => (countSeparator? frames).map (.operator op range :: ·)
  | .call name range entry hfunction separators :: frames =>
    some (.call name range entry hfunction (separators + 1) :: frames)
  | .leftBracket range :: frames => (countSeparator? frames).map (.leftBracket range :: ·)

end Frame

/-! ## Two stacks -/

/-- The operands, and all that waits. -/
structure TwoStacks (functions : Functions) where
  operands : List Tree
  frames : List (Frame functions)

namespace TwoStacks

variable {functions : Functions}

/-- The three stacks: the counts are those of the calls. -/
def toState (s : TwoStacks functions) : State :=
  ⟨s.operands, s.frames.map Frame.pending, s.frames.filterMap Frame.count?⟩

/-- Puts an operand on its stack. -/
def pushOperand (s : TwoStacks functions) (tree : Tree) : TwoStacks functions :=
  { s with operands := tree :: s.operands }

/-- Puts a frame on its stack. -/
def pushFrame (s : TwoStacks functions) (frame : Frame functions) : TwoStacks functions :=
  { s with frames := frame :: s.frames }

/-- The topmost frame takes its operands if it goes ahead. -/
def ahead (rest : List Token) (s : TwoStacks functions) :
    Option (Except ParseError (TwoStacks functions)) :=
  match s.frames with
  | [] => none
  | top :: frames =>
    if goesAheadOf rest top.pending then
      (top.operandsAfter? s.operands).map (Except.map fun operands => ⟨operands, frames⟩)
    else none

/-- A name is a call, else a constant, else a variable. -/
def acceptIdentifier (scope : Scope) (name : String) (range : Range)
    (s : TwoStacks scope.functions) : TwoStacks scope.functions :=
  match hfunction : scope.functions.find? name with
  | some entry => s.pushFrame (.call name range entry hfunction 0)
  | none =>
    match scope.constants.find? name with
    | some entry => s.pushOperand (.decimal entry.content)
    | none => s.pushOperand (.var (canonical scope.caseSensitive name))

/-- A right bracket closes the left bracket on top. -/
def acceptRightBracket (range : Range) (s : TwoStacks functions) :
    Except ParseError (TwoStacks functions) :=
  match s.frames with
  | .leftBracket _ :: frames => .ok { s with frames := frames }
  | _ => .error (.unmatchedRightBracket range)

/-- A separator inside brackets counts for the last waiting call. -/
def acceptSeparator (range : Range) (s : TwoStacks functions) :
    Except ParseError (TwoStacks functions) :=
  match s.frames with
  | .leftBracket _ :: _ =>
    match Frame.countSeparator? s.frames with
    | some frames => .ok { s with frames := frames }
    | none => .error (.misplacedSeparator range)
  | _ => .error (.misplacedSeparator range)

/-- The state after one more token. -/
def accept (scope : Scope) (s : TwoStacks scope.functions) (token : Token) :
    Except ParseError (TwoStacks scope.functions) :=
  match token.kind with
  | .integer value => .ok (s.pushOperand (.integer value))
  | .decimal value => .ok (s.pushOperand (.decimal value))
  | .identifier name => .ok (s.acceptIdentifier scope name token.range)
  | .leftBracket => .ok (s.pushFrame (.leftBracket token.range))
  | .rightBracket => s.acceptRightBracket token.range
  | .separator => s.acceptSeparator token.range
  | .operator op => .ok (s.pushFrame (.operator op token.range))

/-- The tree of a state at the end. -/
def finish (s : TwoStacks functions) : Except ParseError Tree :=
  match s.frames with
  | .leftBracket range :: _ => .error (.unmatchedLeftBracket range)
  | _ => root s.operands

end TwoStacks

/-- The assembly in which every call keeps its own count. -/
def twoStacks (scope : Scope) : Assembler (TwoStacks scope.functions) where
  start := ⟨[], []⟩
  ahead := TwoStacks.ahead
  accept := TwoStacks.accept scope
  finish := TwoStacks.finish

/-! ## The two assemblies in step -/

section

variable {functions : Functions} {scope : Scope}

theorem reduceOperator_eq (op : Operator) (range : Range) (s : State) :
    reduceOperator op range s =
      (applyOperator op range s.operands).map fun operands => { s with operands := operands } := by
  obtain ⟨operands, pending, counts⟩ := s
  cases op with
  | binary op => rcases operands with _ | ⟨right, _ | ⟨left, operands⟩⟩ <;> rfl
  | negate => cases operands <;> rfl

theorem reduceFunction_eq {name : String} {entry : Entry Function}
    (hfunction : functions.find? name = some entry) (range : Range) (operands : List Tree)
    (pending : List Pending) (count : Nat) (counts : List Nat) :
    reduceFunction functions name range ⟨operands, pending, count :: counts⟩ =
      (applyCall name range entry count operands).map fun operands =>
        ⟨operands, pending, counts⟩ := by
  rw [reduceFunction, hfunction, applyCall]
  dsimp only [List.headD_cons, List.tail_cons]
  split <;> rfl

namespace Frame

/-- Operators and calls take operands, so whatever goes ahead does. -/
theorem exists_operandsAfter? {rest : List Token} {frame : Frame functions}
    (hahead : goesAheadOf rest frame.pending = true) (operands : List Tree) :
    ∃ result, frame.operandsAfter? operands = some result := by
  cases frame with
  | operator _ _ | call _ _ _ _ _ => exact ⟨_, rfl⟩
  | leftBracket range =>
    rw [pending, goesAheadOf_leftBracket] at hahead
    cases hahead

/-- A separator is counted if some call waits, and then it is the topmost count
that grows. -/
theorem countSeparator?_spec (frames : List (Frame functions)) :
    match countSeparator? frames with
    | none => frames.filterMap count? = []
    | some counted => counted.map pending = frames.map pending ∧
        ∃ count counts, frames.filterMap count? = count :: counts ∧
          counted.filterMap count? = (count + 1) :: counts := by
  induction frames with
  | nil => rfl
  | cons top frames ih =>
    cases top with
    | call name range entry hfunction separators => exact ⟨rfl, _, _, rfl, rfl⟩
    | operator _ _ | leftBracket _ =>
      rw [countSeparator?]
      cases hcounted : countSeparator? frames with
      | none =>
        rw [hcounted] at ih
        exact ih
      | some counted =>
        rw [hcounted] at ih
        obtain ⟨hpending, count, counts, hcounts, hcounts'⟩ := ih
        exact ⟨congrArg (_ :: ·) hpending, count, counts, hcounts, hcounts'⟩

end Frame

namespace TwoStacks

/-- The topmost frame takes its operands like the topmost waiting one. -/
theorem reduceTop_toState {top : Frame functions} {operands : List Tree}
    {result : Except ParseError (List Tree)} (h : top.operandsAfter? operands = some result)
    (frames : List (Frame functions)) :
    reduceTop functions (toState ⟨operands, top :: frames⟩) =
      result.map fun operands => toState ⟨operands, frames⟩ := by
  cases top with
  | operator op range =>
    cases h
    exact reduceOperator_eq op range _
  | call name range entry hfunction separators =>
    cases h
    exact reduceFunction_eq hfunction range operands _ _ _
  | leftBracket range => cases h

theorem ahead_toState (rest : List Token) (s : TwoStacks scope.functions) :
    (threeStacks scope).ahead rest s.toState = (s.ahead rest).map (Except.map toState) := by
  obtain ⟨operands, frames⟩ := s
  cases frames with
  | nil => rfl
  | cons top frames =>
    by_cases hahead : goesAheadOf rest top.pending = true
    · obtain ⟨result, hresult⟩ := Frame.exists_operandsAfter? hahead operands
      have hthree : (threeStacks scope).ahead rest (toState ⟨operands, top :: frames⟩) =
          some (reduceTop scope.functions _) := if_pos hahead
      have htwo : ahead rest ⟨operands, top :: frames⟩ = _ := if_pos hahead
      rw [hthree, htwo, reduceTop_toState hresult, hresult]
      cases result <;> rfl
    · have hthree : (threeStacks scope).ahead rest (toState ⟨operands, top :: frames⟩) = none :=
        if_neg hahead
      have htwo : ahead rest ⟨operands, top :: frames⟩ = none := if_neg hahead
      rw [hthree, htwo]
      rfl

/-- Where nothing goes ahead, no loop of the assembly does anything. -/
theorem reduceWhile_toState {rest : List Token} {s : TwoStacks functions}
    (hstay : s.ahead rest = none) :
    reduceWhile functions (goesAheadOf rest) s.toState = .ok s.toState := by
  refine reduceWhile_of_head fun top htop => ?_
  obtain ⟨operands, frames⟩ := s
  cases frames with
  | nil => cases htop
  | cons first frames =>
    cases htop
    rw [Bool.eq_false_iff]
    intro hahead
    obtain ⟨result, hresult⟩ := Frame.exists_operandsAfter? hahead operands
    have hgoes : ahead rest ⟨operands, first :: frames⟩ = _ := if_pos hahead
    rw [hgoes, hresult] at hstay
    cases hstay

theorem acceptIdentifier_toState (name : String) (range : Range)
    (s : TwoStacks scope.functions) :
    Assembly.acceptIdentifier scope name range s.toState =
      (s.acceptIdentifier scope name range).toState := by
  unfold TwoStacks.acceptIdentifier
  split
  · rename_i entry hfunction
    rw [Assembly.acceptIdentifier, if_pos (by simp [hfunction])]
    rfl
  · rename_i hfunction
    rw [Assembly.acceptIdentifier, if_neg (by simp [hfunction])]
    cases scope.constants.find? name <;> rfl

theorem acceptRightBracket_toState {range : Range} {s : TwoStacks functions}
    (hloop : reduceToBracket functions s.toState = .ok s.toState) :
    Assembly.acceptRightBracket functions range s.toState =
      (s.acceptRightBracket range).map toState := by
  rw [Assembly.acceptRightBracket, hloop]
  obtain ⟨operands, frames⟩ := s
  rcases frames with _ | ⟨_ | _ | _, frames⟩ <;> rfl

theorem acceptSeparator_toState {range : Range} {s : TwoStacks functions}
    (hloop : reduceToBracket functions s.toState = .ok s.toState) :
    Assembly.acceptSeparator functions range s.toState =
      (s.acceptSeparator range).map toState := by
  rw [Assembly.acceptSeparator, hloop]
  obtain ⟨operands, frames⟩ := s
  rcases frames with _ | ⟨_ | _ | opening, frames⟩
  · rfl
  · rfl
  · rfl
  · have hspec := Frame.countSeparator?_spec (.leftBracket opening :: frames)
    unfold acceptSeparator
    dsimp only
    cases hcounted : Frame.countSeparator? (.leftBracket opening :: frames) with
    | none =>
      rw [hcounted] at hspec
      rw [toState, hspec]
      rfl
    | some counted =>
      rw [hcounted] at hspec
      obtain ⟨hpending, count, counts, hcounts, hcounts'⟩ := hspec
      have hafter : toState ⟨operands, counted⟩ = _ :=
        congrArg₂ (State.mk operands) hpending hcounts'
      rw [toState, hcounts]
      exact congrArg Except.ok hafter.symm

theorem accept_toState {token : Token} {rest : List Token} {s : TwoStacks scope.functions}
    (hstay : s.ahead (token :: rest) = none) :
    State.accept scope s.toState token = (s.accept scope token).map toState := by
  have hloop := reduceWhile_toState hstay
  obtain ⟨kind, range⟩ := token
  cases kind with
  | integer value | decimal value | leftBracket => rfl
  | identifier name => exact congrArg Except.ok (acceptIdentifier_toState name range s)
  | rightBracket => exact acceptRightBracket_toState hloop
  | separator => exact acceptSeparator_toState hloop
  | operator op =>
    change acceptOperator scope.functions op range s.toState = _
    rw [acceptOperator, show reduceWhile scope.functions (goesBefore op) s.toState = _ from hloop]
    rfl

theorem finish_toState {s : TwoStacks functions} (hstay : s.ahead [] = none) :
    State.finish functions s.toState = s.finish := by
  have hloop : reduceToBracket functions s.toState = _ := reduceWhile_toState hstay
  rw [State.finish, hloop]
  obtain ⟨operands, frames⟩ := s
  rcases frames with _ | ⟨_ | _ | _, frames⟩ <;> rfl

end TwoStacks

/-- The assembly does what the one with two stacks does. -/
theorem threeStacks_follows (scope : Scope) :
    (threeStacks scope).Follows (twoStacks scope) TwoStacks.toState where
  start := rfl
  ahead := TwoStacks.ahead_toState
  accept _ _ _ := TwoStacks.accept_toState
  finish _ := TwoStacks.finish_toState

/-! ## What the other assembly gives -/

namespace TwoStacks

/-- Taken out of the calls, the counts are in step with them. -/
theorem isCounted_toState (s : TwoStacks functions) : s.toState.IsCounted := by
  obtain ⟨operands, frames⟩ := s
  induction frames with
  | nil => exact ⟨rfl, List.forall_mem_nil _⟩
  | cons top frames ih =>
    cases top with
    | operator _ _ | leftBracket _ =>
      exact ⟨ih.length.trans (List.countP_cons_of_neg Bool.false_ne_true).symm, ih.pos⟩
    | call name range entry hfunction separators =>
      refine ⟨?_, List.forall_mem_cons.mpr ⟨Nat.succ_pos _, ih.pos⟩⟩
      exact (congrArg Nat.succ ih.length).trans (List.countP_cons_of_pos rfl).symm

end TwoStacks

/-- A reduction finds what it looks for: an operator on top of the waiting ones,
or a call of a registered function, and a count for the call. -/
def State.IsReady (functions : Functions) (s : State) : Prop :=
  match s.pending with
  | .operator _ _ :: _ => True
  | .function name _ :: _ => (functions.find? name).isSome ∧ s.counts ≠ []
  | .leftBracket _ :: _ | [] => False

/-- Whatever goes ahead is ready. -/
theorem TwoStacks.isReady_toState {rest : List Token} {s : TwoStacks scope.functions}
    {step : Except ParseError State} (h : (threeStacks scope).ahead rest s.toState = some step) :
    reduceTop scope.functions s.toState = step ∧ s.toState.IsReady scope.functions := by
  obtain ⟨top, pending, hpending, hahead, hreduce⟩ := exists_goesAheadOf h
  refine ⟨hreduce, ?_⟩
  obtain ⟨operands, frames⟩ := s
  cases frames with
  | nil => cases hpending
  | cons first frames =>
    cases hpending
    cases first with
    | operator op range => trivial
    | call name range entry hfunction separators =>
      exact ⟨Option.isSome_of_eq_some hfunction, List.cons_ne_nil _ _⟩
    | leftBracket range =>
      rw [Frame.pending, goesAheadOf_leftBracket] at hahead
      cases hahead

/-! ### No unknown functions -/

section

variable (name : String) (range : Range)

theorem Frame.operandsAfter?_ne_unknownFunction (frame : Frame functions) (operands : List Tree) :
    frame.operandsAfter? operands ≠ some (.error (.unknownFunction name range)) := by
  intro h
  cases frame with
  | operator op range =>
    have herror := Option.some.inj h
    unfold applyOperator at herror
    split at herror <;> cases herror
  | call name range entry hfunction separators =>
    have herror := Option.some.inj h
    unfold applyCall at herror
    dsimp only at herror
    split at herror <;> cases herror
  | leftBracket range => cases h

namespace TwoStacks

theorem ahead_ne_unknownFunction (rest : List Token) (s : TwoStacks functions) :
    s.ahead rest ≠ some (.error (.unknownFunction name range)) := by
  intro h
  unfold ahead at h
  split at h
  · cases h
  · rename_i top frames _
    obtain ⟨_, hstep⟩ := Option.ite_none_right_eq_some.mp h
    obtain ⟨result, hresult, herror⟩ := Option.map_eq_some_iff.mp hstep
    rw [Assembler.eq_error_of_map herror] at hresult
    exact top.operandsAfter?_ne_unknownFunction name range s.operands hresult

theorem accept_ne_unknownFunction (s : TwoStacks scope.functions) (token : Token) :
    s.accept scope token ≠ .error (.unknownFunction name range) := by
  intro h
  obtain ⟨kind, place⟩ := token
  cases kind with
  | integer value | decimal value | identifier name | leftBracket | operator op => cases h
  | rightBracket =>
    change s.acceptRightBracket place = _ at h
    unfold acceptRightBracket at h
    split at h <;> cases h
  | separator =>
    change s.acceptSeparator place = _ at h
    unfold acceptSeparator at h
    split at h
    · split at h <;> cases h
    · cases h

theorem finish_ne_unknownFunction (s : TwoStacks functions) :
    s.finish ≠ .error (.unknownFunction name range) := by
  intro h
  unfold finish at h
  split at h
  · cases h
  · cases token?_of_root h

end TwoStacks

theorem twoStacks_not_answers_unknownFunction {tokens : List Token} :
    ¬(twoStacks scope).Answers tokens (.error (.unknownFunction name range)) := by
  intro h
  generalize hanswer : Except.error (ParseError.unknownFunction name range) = answer at h
  cases h with
  | ahead _ hstep =>
    cases hanswer
    exact TwoStacks.ahead_ne_unknownFunction name range _ _ hstep
  | accept _ _ hstep =>
    cases hanswer
    exact TwoStacks.accept_ne_unknownFunction name range _ _ hstep
  | finish _ _ => exact TwoStacks.finish_ne_unknownFunction name range _ hanswer.symm

end

end

/-! ## In step -/

/-- In every state that an assembly comes through, also while it takes a token, the
counts are those of the waiting calls in their order, and none is zero: it is a
state of the assembly in which every call keeps its own count.  So every reduction
finds an operator, or a call of a registered function and its count, and never a
bracket or nothing.  No list of tokens fails because a function is unknown. -/
theorem stacks_stay_in_step (scope : Scope) (tokens : List Token) :
    (∀ rest s, (threeStacks scope).Visits tokens rest s ↔
        ∃ s', (twoStacks scope).Visits tokens rest s' ∧ s'.toState = s) ∧
      (∀ rest s, (threeStacks scope).Visits tokens rest s →
        s.counts.length = s.pending.countP Pending.isFunction ∧
          (∀ count ∈ s.counts, 1 ≤ count) ∧
          ∀ step, (threeStacks scope).ahead rest s = some step →
            reduceTop scope.functions s = step ∧ s.IsReady scope.functions) ∧
      (tokens ≠ [] → (threeStacks scope).Answers tokens (Tree.ofTokens scope tokens)) ∧
      ∀ name range, Tree.ofTokens scope tokens ≠ .error (.unknownFunction name range) := by
  have hfollows := threeStacks_follows scope
  refine ⟨fun rest s => hfollows.visits_iff, fun rest s hvisits => ?_, answers_ofTokens,
    fun name range h => ?_⟩
  · obtain ⟨s', _, rfl⟩ := hfollows.exists_visits hvisits
    have hcounted := s'.isCounted_toState
    exact ⟨hcounted.length, hcounted.pos, fun _ => TwoStacks.isReady_toState⟩
  · by_cases htokens : tokens = []
    · subst htokens
      cases h
    · have hanswers : (threeStacks scope).Answers tokens _ := answers_ofTokens htokens
      rw [h] at hanswers
      exact twoStacks_not_answers_unknownFunction name range (hfollows.answers hanswers)

/-- A function of any number of arguments. -/
def anyArguments : Scope :=
  ⟨.ofLocked false [("f", .dynamic fun _ => .ok .zero)], .empty false, false⟩

/-- The formula `f(1,f(2),3)` up to its second separator. -/
def upToInner : List Token :=
  inARow [.identifier "f", .leftBracket, .integer 1, .separator, .identifier "f", .leftBracket,
    .integer 2, .rightBracket]

/-- The rest of it. -/
def fromInner : List Token :=
  [⟨.separator, .onLine ⟨1, 9⟩ 1⟩, ⟨.integer 3, .onLine ⟨1, 10⟩ 1⟩,
    ⟨.rightBracket, .onLine ⟨1, 11⟩ 1⟩]

/-- The inner call waits with its one argument, the outer one with two. -/
def bothWait : State :=
  ⟨[.integer 2, .integer 1],
    [.function "f" (.onLine ⟨1, 5⟩ 1), .leftBracket (.onLine ⟨1, 2⟩ 1),
      .function "f" (.onLine ⟨1, 1⟩ 1)],
    [1, 2]⟩

/-- The inner call has gone ahead of the separator, and taken its count along. -/
def outerWaits : State :=
  ⟨[.call "f" true [.integer 2], .integer 1],
    [.leftBracket (.onLine ⟨1, 2⟩ 1), .function "f" (.onLine ⟨1, 1⟩ 1)], [2]⟩

theorem stacks_stay_in_step_of_nested :
    (threeStacks anyArguments).Visits (upToInner ++ fromInner) fromInner bothWait ∧
      (threeStacks anyArguments).ahead fromInner bothWait = some (.ok outerWaits) ∧
      reduceTop anyArguments.functions bothWait = .ok outerWaits ∧
      bothWait.IsReady anyArguments.functions ∧
      bothWait.counts.length = bothWait.pending.countP Pending.isFunction ∧
      (∀ count ∈ bothWait.counts, 1 ≤ count) ∧
      (threeStacks anyArguments).Visits (upToInner ++ fromInner) fromInner outerWaits ∧
      (∃ s', (twoStacks anyArguments).Visits (upToInner ++ fromInner) fromInner s' ∧
        s'.toState = outerWaits) ∧
      outerWaits.counts.length = outerWaits.pending.countP Pending.isFunction ∧
      (threeStacks anyArguments).Answers (upToInner ++ fromInner)
        (Tree.ofTokens anyArguments (upToInner ++ fromInner)) := by
  have hboth : (threeStacks anyArguments).Visits (upToInner ++ fromInner) fromInner bothWait :=
    visits_of_acceptAll .start (by with_unfolding_all rfl)
  have hahead : (threeStacks anyArguments).ahead fromInner bothWait = some (.ok outerWaits) := by
    with_unfolding_all rfl
  have houter := hboth.ahead hahead
  obtain ⟨hviews, hstates, hanswers, -⟩ :=
    stacks_stay_in_step anyArguments (upToInner ++ fromInner)
  obtain ⟨hcounts, hpos, hready⟩ := hstates _ _ hboth
  obtain ⟨hcounts', -, -⟩ := hstates _ _ houter
  obtain ⟨hreduce, hall⟩ := hready _ hahead
  exact ⟨hboth, hahead, hreduce, hall, hcounts, hpos, houter, (hviews _ _).mp houter, hcounts',
    hanswers (List.cons_ne_nil _ _)⟩

end FormulaEngine.Assembly
