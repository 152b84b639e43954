import FormulaEngine.Proofs.Assembly.Grammar
import FormulaEngine.Proofs.Assembly.Order

/-!
# The counts of the waiting calls

A call takes as many operands as its function has parameters, or as many as were
counted for it.  The counts have a stack of their own.

`State.IsCounted` says that the two stacks stay in step: there is a count for
every waiting call, and no count is zero.  Together with the operands it is kept
by every token (`State.Fits.of_takes`), so every call in an assembled tree has a
number of arguments that its function takes (`callsFit_of_ofTokens`).
-/

namespace FormulaEngine

namespace Tree

/-- Every call in the tree is of a registered function, and has a number of
arguments that the function takes. -/
def CallsFit (functions : Functions) (tree : Tree) : Prop :=
  ∀ call ∈ tree.calls, ∃ entry, functions.find? call.1 = some entry ∧
    entry.content.arity.Admits call.2

variable {functions : Functions}

theorem callsFit_binary_iff {op : BinaryOp} {left right : Tree} :
    (binary op left right).CallsFit functions ↔
      left.CallsFit functions ∧ right.CallsFit functions := by
  rw [CallsFit, calls_binary, List.forall_mem_append]
  rfl

theorem callsFit_call_iff {name : String} {idempotent : Bool} {arguments : List Tree} :
    (call name idempotent arguments).CallsFit functions ↔
      (∃ entry, functions.find? name = some entry ∧
        entry.content.arity.Admits arguments.length) ∧
        ∀ argument ∈ arguments, argument.CallsFit functions := by
  rw [CallsFit, calls_call, List.forall_mem_cons]
  simp only [List.forall_mem_flatMap]
  rfl

end Tree

namespace Assembly

open Text

/-! ## Counts in step -/

/-- Whether the waiting one is a call. -/
def Pending.isFunction : Pending → Bool
  | .function _ _ => true
  | .operator _ _ | .leftBracket _ => false

/-- Every waiting call has a count, and no count is zero. -/
structure State.IsCounted (s : State) : Prop where
  length : s.counts.length = s.pending.countP Pending.isFunction
  pos : ∀ count ∈ s.counts, 1 ≤ count

section

variable {scope : Scope} {functions : Functions} {s t : State}

namespace State.IsCounted

theorem start : State.start.IsCounted := ⟨rfl, List.forall_mem_nil _⟩

theorem of_operator {operands operands' : List Tree} {pending : List Pending} {counts : List Nat}
    {op : Operator} {range : Range}
    (h : IsCounted ⟨operands, .operator op range :: pending, counts⟩) :
    IsCounted ⟨operands', pending, counts⟩ :=
  ⟨h.length.trans (List.countP_cons_of_neg Bool.false_ne_true), h.pos⟩

/-- The topmost call has the topmost count. -/
theorem exists_count {operands : List Tree} {pending : List Pending} {counts : List Nat}
    {name : String} {range : Range}
    (h : IsCounted ⟨operands, .function name range :: pending, counts⟩) :
    ∃ count rest, counts = count :: rest ∧ 1 ≤ count ∧
      ∀ operands', IsCounted ⟨operands', pending, rest⟩ := by
  have hlength : counts.length = pending.countP Pending.isFunction + 1 :=
    h.length.trans (List.countP_cons_of_pos rfl)
  obtain ⟨count, rest, rfl⟩ := List.exists_cons_of_length_eq_add_one hlength
  have hpos := List.forall_mem_cons.mp h.pos
  exact ⟨count, rest, rfl, hpos.1, fun _ => ⟨Nat.succ.inj hlength, hpos.2⟩⟩

theorem of_reduces (h : Reduces functions s t) (hs : s.IsCounted) : t.IsCounted := by
  cases h with
  | negate range => exact hs.of_operator
  | binary op range => exact hs.of_operator
  | call range hfunction hcount =>
    obtain ⟨count, rest, rfl, _, hrest⟩ := hs.exists_count
    exact hrest _

theorem of_reducesAll (h : ReducesAll functions s t) (hs : s.IsCounted) : t.IsCounted := by
  induction h with
  | refl => exact hs
  | tail _ hreduces ih => exact ih.of_reduces hreduces

theorem of_takes {token : Token} (h : Takes scope token s t) (hs : s.IsCounted) :
    t.IsCounted := by
  cases h with
  | operand s hdenotes => exact ⟨hs.length, hs.pos⟩
  | name range s hfunction =>
    refine ⟨?_, List.forall_mem_cons.mpr ⟨Nat.le_refl 1, hs.pos⟩⟩
    rw [List.countP_cons_of_pos rfl, List.length_cons, hs.length]
  | leftBracket range s =>
    exact ⟨hs.length.trans (List.countP_cons_of_neg Bool.false_ne_true).symm, hs.pos⟩
  | rightBracket range hreduces =>
    have hafter := hs.of_reducesAll hreduces
    exact ⟨hafter.length.trans (List.countP_cons_of_neg Bool.false_ne_true), hafter.pos⟩
  | separator range hreduces =>
    have hafter := hs.of_reducesAll hreduces
    have hpos := List.forall_mem_cons.mp hafter.pos
    exact ⟨hafter.length, List.forall_mem_cons.mpr ⟨Nat.succ_pos _, hpos.2⟩⟩
  | operator op range hreduce =>
    have hafter := hs.of_reducesAll (reducesAll_of_reduceWhile hreduce).1
    exact ⟨hafter.length.trans (List.countP_cons_of_neg Bool.false_ne_true).symm, hafter.pos⟩

/-- The counts are in step with the calls in every run. -/
theorem of_runs {tokens : List Token} (h : Runs scope tokens s t) (hs : s.IsCounted) :
    t.IsCounted := by
  induction h with
  | nil s => exact hs
  | cons htakes _ ih => exact ih (hs.of_takes htakes)

end State.IsCounted

/-! ## Calls that fit -/

/-- A positive count is a number of arguments that the function takes. -/
theorem admits_argumentCount (arity : Arity) {counted : Nat} (h : 1 ≤ counted) :
    arity.Admits (argumentCount arity counted) := by
  cases arity with
  | fixed count => rfl
  | dynamic => exact h

/-- The calls in the operands fit, and those that wait will. -/
structure State.Fits (functions : Functions) (s : State) : Prop where
  counted : s.IsCounted
  operands : ∀ tree ∈ s.operands, tree.CallsFit functions

namespace State.Fits

theorem of_reduces (h : Reduces functions s t) (hs : s.Fits functions) : t.Fits functions := by
  refine ⟨hs.counted.of_reduces h, ?_⟩
  have hoperands := hs.operands
  cases h with
  | negate range =>
    rw [List.forall_mem_cons] at hoperands ⊢
    exact hoperands
  | binary op range =>
    rw [List.forall_mem_cons, List.forall_mem_cons] at hoperands
    rw [List.forall_mem_cons]
    exact ⟨Tree.callsFit_binary_iff.mpr ⟨hoperands.2.1, hoperands.1⟩, hoperands.2.2⟩
  | call range hfunction hcount =>
    -- The stacks are in step, so the topmost count was made for this call.
    obtain ⟨count, rest, rfl, hpos, _⟩ := hs.counted.exists_count
    rw [List.forall_mem_append] at hoperands
    rw [List.forall_mem_cons]
    refine ⟨Tree.callsFit_call_iff.mpr ⟨⟨_, Registry.find?_name hfunction, ?_⟩, ?_⟩, hoperands.2⟩
    · rw [hcount]
      exact admits_argumentCount _ hpos
    · intro argument hmem
      exact hoperands.1 argument (List.mem_reverse.mpr hmem)

theorem of_reducesAll (h : ReducesAll functions s t) (hs : s.Fits functions) :
    t.Fits functions := by
  induction h with
  | refl => exact hs
  | tail _ hreduces ih => exact ih.of_reduces hreduces

theorem of_takes {token : Token} (h : Takes scope token s t) (hs : s.Fits scope.functions) :
    t.Fits scope.functions := by
  refine ⟨hs.counted.of_takes h, ?_⟩
  cases h with
  | operand s hdenotes =>
    refine List.forall_mem_cons.mpr ⟨?_, hs.operands⟩
    cases hdenotes <;> exact List.forall_mem_nil _
  | name range s hfunction => exact hs.operands
  | leftBracket range s => exact hs.operands
  | rightBracket range hreduces => exact (hs.of_reducesAll hreduces).operands
  | separator range hreduces => exact (hs.of_reducesAll hreduces).operands
  | operator op range hreduce =>
    exact (hs.of_reducesAll (reducesAll_of_reduceWhile hreduce).1).operands

theorem of_runs {tokens : List Token} (h : Runs scope tokens s t) (hs : s.Fits scope.functions) :
    t.Fits scope.functions := by
  induction h with
  | nil s => exact hs
  | cons htakes _ ih => exact ih (hs.of_takes htakes)

end State.Fits

/-- Every call in an assembled tree has a number of arguments that its function
takes. -/
theorem callsFit_of_ofTokens {tokens : List Token} {tree : Tree}
    (h : Tree.ofTokens scope tokens = .ok tree) : tree.CallsFit scope.functions := by
  obtain ⟨s, counts, hruns, hreduces⟩ := exists_runs_of_ofTokens h
  have hstart : State.start.Fits scope.functions := ⟨.start, List.forall_mem_nil _⟩
  exact ((hstart.of_runs hruns).of_reducesAll hreduces).operands tree List.mem_cons_self

end

end Assembly

end FormulaEngine
