import FormulaEngine.Proofs.Assembly.Grammar

/-!
# Reading a chain from left to right

The rule of `Grammar.arrange` looks at a chain as a whole.  A reader sees its
links one after the other: it keeps a stack of operands that wait with the
operator after them, and every new operator lets some of them go ahead.
`Climb` is such a reader for chains alone, and `total_advanceAll` says that
it ends with the tree of the rule.

The proof looks at the operator at which the chain splits.  When it comes,
everything before it goes ahead (`settle_of_forall_yieldsTo`), and it goes
ahead of nothing that comes after it (`advanceAll_above`).
-/

namespace FormulaEngine.Grammar

/-- An operand that waits with the operator after it. -/
structure Waiting where
  operand : Tree
  op : BinaryOp

/-- What is read of a chain: the waiting operands, the topmost first, and the
last operand. -/
structure Climb where
  stack : List Waiting
  last : Tree

namespace Climb

/-- The waiting operands that go before the operator `next` take theirs. -/
def settle (next : BinaryOp) : List Waiting → Tree → Climb
  | [], last => ⟨[], last⟩
  | top :: stack, last =>
    if (Operator.binary top.op).yieldsTo (.binary next) then
      settle next stack (.binary top.op top.operand last)
    else ⟨top :: stack, last⟩

/-- One link more. -/
def advance (climb : Climb) (link : Link) : Climb :=
  let settled := settle link.op climb.stack climb.last
  ⟨⟨settled.last, link.op⟩ :: settled.stack, link.operand⟩

/-- More links. -/
def advanceAll (climb : Climb) (links : List Link) : Climb := links.foldl advance climb

/-- All waiting operands take theirs. -/
def total (climb : Climb) : Tree :=
  climb.stack.foldl (fun tree top => .binary top.op top.operand tree) climb.last

/-- An operator that all waiting ones go before finds one operand. -/
theorem settle_of_forall_yieldsTo {next : BinaryOp} {stack : List Waiting} (last : Tree)
    (h : ∀ top ∈ stack, (Operator.binary top.op).yieldsTo (.binary next) = true) :
    settle next stack last = ⟨[], total ⟨stack, last⟩⟩ := by
  induction stack generalizing last with
  | nil => rfl
  | cons top stack ih =>
    rw [List.forall_mem_cons] at h
    rw [settle, if_pos h.1, ih _ h.2]
    rfl

/-- One that does not go before an operator keeps all below it waiting. -/
theorem settle_above {next : BinaryOp} {bottom : Waiting} (stack : List Waiting) (last : Tree)
    (h : (Operator.binary bottom.op).yieldsTo (.binary next) = false) :
    settle next (stack ++ [bottom]) last =
      ⟨(settle next stack last).stack ++ [bottom], (settle next stack last).last⟩ := by
  induction stack generalizing last with
  | nil =>
    exact if_neg (by simp [h])
  | cons top stack ih =>
    rw [List.cons_append, settle, settle]
    split
    · exact ih _
    · rfl

/-- A waiting one that goes before none of the links stays at the bottom. -/
theorem advanceAll_above {bottom : Waiting} {links : List Link} (climb : Climb)
    (h : ∀ link ∈ links, (Operator.binary bottom.op).yieldsTo (.binary link.op) = false) :
    advanceAll ⟨climb.stack ++ [bottom], climb.last⟩ links =
      ⟨(climb.advanceAll links).stack ++ [bottom], (climb.advanceAll links).last⟩ := by
  induction links generalizing climb with
  | nil => rfl
  | cons link links ih =>
    rw [List.forall_mem_cons] at h
    have hstep : advance ⟨climb.stack ++ [bottom], climb.last⟩ link =
        ⟨(climb.advance link).stack ++ [bottom], (climb.advance link).last⟩ := by
      rw [advance, settle_above climb.stack climb.last h.1]
      rfl
    rw [advanceAll, List.foldl_cons, hstep]
    exact ih (climb.advance link) h.2

theorem settle_subset (next : BinaryOp) (stack : List Waiting) (last : Tree) :
    ∀ top ∈ (settle next stack last).stack, top ∈ stack := by
  induction stack generalizing last with
  | nil => intro top hmem; cases hmem
  | cons head stack ih =>
    rw [settle]
    split
    · exact fun top hmem => List.mem_cons_of_mem _ (ih _ top hmem)
    · exact fun top hmem => hmem

/-- The waiting operators are those of the links and of the start. -/
theorem advanceAll_subset (p : BinaryOp → Prop) {links : List Link} (climb : Climb)
    (hlinks : ∀ link ∈ links, p link.op) (hstack : ∀ top ∈ climb.stack, p top.op) :
    ∀ top ∈ (climb.advanceAll links).stack, p top.op := by
  induction links generalizing climb with
  | nil => exact hstack
  | cons link links ih =>
    rw [List.forall_mem_cons] at hlinks
    refine ih _ hlinks.2 (List.forall_mem_cons.mpr ⟨hlinks.1, fun top hmem => ?_⟩)
    exact hstack top (settle_subset _ _ _ top hmem)

/-! ## The split -/

theorem yieldsTo_iff {waiting next : BinaryOp} :
    (Operator.binary waiting).yieldsTo (.binary next) = true ↔
      groupsLeft next = true ∧ level next ≤ level waiting ∨ level next < level waiting := by
  simp [Operator.yieldsTo, groupsLeft, level]

/-- Every operator before the split goes before it. -/
theorem yieldsTo_of_before {before after : List Link} {op : BinaryOp}
    (h : SplitsAt before op after) :
    ∀ link ∈ before, (Operator.binary link.op).yieldsTo (.binary op) = true := by
  intro link hmem
  have hle := h.lowest link (List.mem_append_left _ hmem)
  rw [yieldsTo_iff]
  cases hgroups : groupsLeft op with
  | true => exact Or.inl ⟨rfl, hle⟩
  | false => exact Or.inr (Nat.lt_of_le_of_ne hle (h.first hgroups link hmem).symm)

/-- It goes before no operator after it. -/
theorem not_yieldsTo_of_after {before after : List Link} {op : BinaryOp}
    (h : SplitsAt before op after) :
    ∀ link ∈ after, (Operator.binary op).yieldsTo (.binary link.op) = false := by
  intro link hmem
  have hle := h.lowest link (List.mem_append_right _ hmem)
  rw [Bool.eq_false_iff, Ne, yieldsTo_iff]
  rintro (⟨hleft, hlevel⟩ | hlt)
  · have hsame : level link.op = level op := Nat.le_antisymm hlevel hle
    cases hgroups : groupsLeft op with
    | true => simp [h.last hgroups link hmem hsame] at hleft
    | false =>
      simp [h.mixed hgroups link (List.mem_append_right _ hmem) hsame] at hleft
  · exact absurd hle (Nat.not_le.mpr hlt)

/-- Reading a chain from left to right gives the tree of the rule. -/
theorem total_advanceAll (first : Tree) (links : List Link) :
    (advanceAll ⟨[], first⟩ links).total = arrange first links := by
  by_cases hlinks : links = []
  · subst hlinks
    exact (arrange_nil first).symm
  · obtain ⟨before, link, after, rfl, hsplit⟩ := exists_splitsAt hlinks
    have hbefore := total_advanceAll first before
    have hafter := total_advanceAll link.operand after
    -- The operator at the split finds one operand, the tree of what is before it.
    have hyield := advanceAll_subset
      (fun op => (Operator.binary op).yieldsTo (.binary link.op) = true) ⟨[], first⟩
      (yieldsTo_of_before hsplit) (List.forall_mem_nil _)
    have hstep : (advanceAll ⟨[], first⟩ before).advance link =
        ⟨[] ++ [⟨arrange first before, link.op⟩], link.operand⟩ := by
      rw [advance, settle_of_forall_yieldsTo _ hyield, ← hbefore]
      rfl
    have hall : advanceAll ⟨[], first⟩ (before ++ link :: after) =
        advanceAll ((advanceAll ⟨[], first⟩ before).advance link) after := by
      rw [advanceAll, List.foldl_append]
      rfl
    rw [hall, hstep, advanceAll_above ⟨[], link.operand⟩ (not_yieldsTo_of_after hsplit), total,
      List.foldl_append, arrange_of_splitsAt first link hsplit, ← hafter]
    rfl
termination_by links.length
decreasing_by
  all_goals
    subst_vars
    rw [List.length_append, List.length_cons]
    omega

end Climb

end FormulaEngine.Grammar
