import FormulaEngine.Proofs.Assembly.Balance
import FormulaEngine.Proofs.Assembly.Places

/-!
# Operands that stand apart

The assembly keeps operands and operators on two stacks and never compares
their places in the text.  So it takes `1 2 +` for `1 + 2`
(`stray_operator`).  This module shows what it needs: that no operand stands
directly after another one.

`KeepsApart` reads the tokens from left to right and asks for this, and that no
call gets more arguments than it takes.  Then the balance of the stacks is at
most `bound`, and a token that is out of place makes it fall behind for good.
`Reached` is the invariant: as long as the balance is at the bound, the tokens
so far are those of a formula up to there (`Fits`).

At the end of an accepted formula the balance is at the bound, and so the whole
is a formula.  This is `accepts_formulas_only`.  The condition leaves no formula
out (`keepsApart_of_reads`).
-/

namespace FormulaEngine.Assembly

open Grammar

section

variable {scope : Scope}

/-! ## Tokens that keep operands apart -/

/-- No operand stands directly after another one, function names stand before
their brackets, separators stand in those brackets, and no call has more
arguments than it takes.  The first argument says whether an operand has just
ended. -/
inductive KeepsApart (scope : Scope) : Bool → List Level → List Token → Prop where
  | nil (ended : Bool) (levels : List Level) : KeepsApart scope ended levels []
  | operand {token : Token} {tree : Tree} {levels : List Level} {tokens : List Token}
      (h : Denotes scope token tree) (h' : KeepsApart scope true levels tokens) :
      KeepsApart scope false levels (token :: tokens)
  | negate (range : Text.Range) {levels : List Level} {tokens : List Token}
      (h : KeepsApart scope false levels tokens) :
      KeepsApart scope false levels (⟨.operator .negate, range⟩ :: tokens)
  | binary (op : BinaryOp) (range : Text.Range) {ended : Bool} {levels : List Level}
      {tokens : List Token} (h : KeepsApart scope false levels tokens) :
      KeepsApart scope ended levels (⟨.operator (.binary op), range⟩ :: tokens)
  | group (opening : Text.Range) {levels : List Level} {tokens : List Token}
      (h : KeepsApart scope false (.group :: levels) tokens) :
      KeepsApart scope false levels (⟨.leftBracket, opening⟩ :: tokens)
  | call {name : String} (range opening : Text.Range) {entry : Entry Function}
      {levels : List Level} {tokens : List Token}
      (hfunction : scope.functions.find? name = some entry)
      (hroom : entry.content.arity.surplus 1 ≤ 0)
      (h : KeepsApart scope false (.call entry.content.arity 0 :: levels) tokens) :
      KeepsApart scope false levels
        (⟨.identifier name, range⟩ :: ⟨.leftBracket, opening⟩ :: tokens)
  | emptyCall {name : String} (range opening closing : Text.Range) {entry : Entry Function}
      {levels : List Level} {tokens : List Token}
      (hfunction : scope.functions.find? name = some entry)
      (harity : entry.content.arity = .fixed 0) (h : KeepsApart scope true levels tokens) :
      KeepsApart scope false levels
        (⟨.identifier name, range⟩ :: ⟨.leftBracket, opening⟩ :: ⟨.rightBracket, closing⟩
          :: tokens)
  | rightBracket (closing : Text.Range) {ended : Bool} {levels : List Level}
      {tokens : List Token} (h : KeepsApart scope true levels.tail tokens) :
      KeepsApart scope ended levels (⟨.rightBracket, closing⟩ :: tokens)
  | separator (range : Text.Range) {ended : Bool} {arity : Arity} {separators : Nat}
      {levels : List Level} {tokens : List Token} (hroom : arity.surplus (separators + 2) ≤ 0)
      (h : KeepsApart scope false (.call arity (separators + 1) :: levels) tokens) :
      KeepsApart scope ended (.call arity separators :: levels) (⟨.separator, range⟩ :: tokens)
  /-- A separator outside all brackets is always refused. -/
  | outerSeparator (range : Text.Range) {ended : Bool} {tokens : List Token} :
      KeepsApart scope ended [] (⟨.separator, range⟩ :: tokens)

/-! ## The invariant -/

/-- The open brackets on the stacks. -/
inductive Nest (functions : Functions) : List Level → List Pending × List Nat → Prop where
  | nil (counts : List Nat) : Nest functions [] ([], counts)
  | group (opening : Text.Range) {levels : List Level} {pending : List Pending}
      {counts : List Nat} (h : Nest functions levels (enclosing pending counts)) :
      Nest functions (.group :: levels) (.leftBracket opening :: pending, counts)
  | call {name : String} (range opening : Text.Range) {entry : Entry Function}
      {levels : List Level} {pending : List Pending} {counts : List Nat} (separators : Nat)
      (hfunction : functions.find? name = some entry)
      (h : Nest functions levels (enclosing pending counts)) :
      Nest functions (.call entry.content.arity separators :: levels)
        (.leftBracket opening :: .function name range :: pending, (separators + 1) :: counts)

/-- The balance at a place of a formula. -/
def bound (ended : Bool) (levels : List Level) : Int :=
  (if ended then 1 else 0) + (levels.map Level.surplus).sum

theorem bound_true (levels : List Level) : bound true levels = bound false levels + 1 := by
  simp only [bound, if_true, Bool.false_eq_true, if_false]
  omega

theorem bound_cons (ended : Bool) (level : Level) (levels : List Level) :
    bound ended (level :: levels) = bound ended levels + level.surplus := by
  rw [bound, bound, List.map_cons, List.sum_cons]
  omega

theorem bound_le (ended : Bool) (levels : List Level) :
    bound ended levels ≤ bound true levels := by
  cases ended with
  | true => exact Int.le_refl _
  | false =>
    rw [bound_true]
    omega

theorem eq_true_of_bound_le {ended : Bool} {levels : List Level}
    (h : bound true levels ≤ bound ended levels) : ended = true := by
  cases ended with
  | true => rfl
  | false =>
    rw [bound_true] at h
    omega

/-- What holds after tokens that keep operands apart. -/
structure Reached (scope : Scope) (ended : Bool) (levels : List Level) (before : List Token)
    (s : State) : Prop where
  /-- The levels are those of the stacks. -/
  nest : Nest scope.functions levels s.enclosing
  /-- No call has too many arguments. -/
  room : ∀ level ∈ levels, level.surplus ≤ 0
  /-- The balance is not more than in a formula. -/
  within : s.balance scope.functions ≤ bound ended levels
  /-- And if it is that of a formula, the tokens are in place. -/
  fits : s.balance scope.functions = bound ended levels → Fits scope ended levels before

/-- Under the bracket that closes are the other levels. -/
theorem Nest.exists_of_bracket {functions : Functions} {levels : List Level}
    {opening : Text.Range} {t : State}
    (h : Nest functions levels (t.pushPending (.leftBracket opening)).enclosing) :
    ∃ level rest, levels = level :: rest ∧ Nest functions rest t.enclosing := by
  obtain ⟨operands, pending, counts⟩ := t
  cases h with
  | group _ h => exact ⟨_, _, rfl, h⟩
  | call _ _ _ _ h => exact ⟨_, _, rfl, h⟩

theorem Nest.eq_nil {functions : Functions} {levels : List Level} {counts : List Nat}
    (h : Nest functions levels ([], counts)) : levels = [] := by
  cases h
  rfl

namespace Reached

variable {ended ended' : Bool} {levels levels' : List Level} {before tokens : List Token}
  {s t : State}

theorem start : Reached scope false [] [] .start :=
  ⟨.nil [], nofun, Int.le_refl 0, fun _ => .start⟩

/-- Tokens do not let the balance catch up with the bound, and if it does not
fall behind either, they have to be in place. -/
theorem step (h : Reached scope ended levels before s)
    (hnest : Nest scope.functions levels' t.enclosing)
    (hroom : ∀ level ∈ levels', level.surplus ≤ 0)
    (hbehind : t.balance scope.functions + bound ended levels ≤
      s.balance scope.functions + bound ended' levels')
    (hfits : t.balance scope.functions + bound ended levels =
        s.balance scope.functions + bound ended' levels' →
      Fits scope ended levels before → Fits scope ended' levels' (before ++ tokens)) :
    Reached scope ended' levels' (before ++ tokens) t := by
  have hwithin := h.within
  refine ⟨hnest, hroom, by omega, fun heq => ?_⟩
  have hbefore : s.balance scope.functions = bound ended levels := by omega
  exact hfits (by omega) (h.fits hbefore)

theorem operand {token : Token} {tree : Tree} (h : Reached scope false levels before s)
    (hdenotes : Denotes scope token tree) :
    Reached scope true levels (before ++ [token]) (s.pushOperand tree) := by
  have hbalance : (s.pushOperand tree).balance scope.functions = _ := balance_pushOperand s tree
  refine h.step h.nest h.room ?_ fun _ hfits => hfits.operand (isExpression_of_denotes hdenotes)
  rw [hbalance, bound_true]
  omega

theorem negate (range : Text.Range) (h : Reached scope false levels before s)
    (hreduces : ReducesAll scope.functions s t) :
    Reached scope false levels (before ++ [⟨.operator .negate, range⟩])
      (t.pushPending (.operator .negate range)) := by
  have hnest : Nest scope.functions levels t.enclosing := hreduces.enclosing_eq ▸ h.nest
  refine h.step hnest h.room ?_ fun _ hfits => hfits.negate range
  rw [balance_pushNegate, hreduces.balance_eq]

/-- An operator with no operand before it lets the balance fall behind. -/
theorem binary (op : BinaryOp) (range : Text.Range) (h : Reached scope ended levels before s)
    (hreduces : ReducesAll scope.functions s t) :
    Reached scope false levels (before ++ [⟨.operator (.binary op), range⟩])
      (t.pushPending (.operator (.binary op) range)) := by
  have hnest : Nest scope.functions levels t.enclosing := hreduces.enclosing_eq ▸ h.nest
  have hbalance : (t.pushPending (.operator (.binary op) range)).balance scope.functions = _ :=
    balance_pushBinary t op range
  have hended := bound_le ended levels
  have htrue := bound_true levels
  rw [hreduces.balance_eq] at hbalance
  refine h.step hnest h.room (by omega) fun heq hfits => ?_
  cases eq_true_of_bound_le (show bound true levels ≤ bound ended levels by omega)
  exact hfits.binary op range

theorem group (opening : Text.Range) (h : Reached scope false levels before s) :
    Reached scope false (.group :: levels) (before ++ [⟨.leftBracket, opening⟩])
      (s.pushPending (.leftBracket opening)) := by
  refine h.step (.group opening h.nest) (List.forall_mem_cons.mpr ⟨Int.le_refl 0, h.room⟩) ?_
    fun _ hfits => hfits.group opening
  have hsurplus : Level.group.surplus = 0 := rfl
  rw [balance_pushBracket, bound_cons]
  omega

theorem call {name : String} (range opening : Text.Range) {entry : Entry Function}
    (hfunction : scope.functions.find? name = some entry)
    (hroom : entry.content.arity.surplus 1 ≤ 0) (h : Reached scope false levels before s) :
    Reached scope false (.call entry.content.arity 0 :: levels)
      (before ++ [⟨.identifier name, range⟩, ⟨.leftBracket, opening⟩])
      ⟨s.operands, .leftBracket opening :: .function name range :: s.pending, 1 :: s.counts⟩ := by
  have hbalance : State.balance scope.functions
      ⟨s.operands, .leftBracket opening :: .function name range :: s.pending, 1 :: s.counts⟩ + _ =
        s.balance scope.functions + 1 :=
    balance_function hfunction range s.operands s.pending 1 s.counts
  refine h.step (.call range opening 0 hfunction h.nest)
    (List.forall_mem_cons.mpr ⟨hroom, h.room⟩) ?_ fun _ hfits => hfits.call range opening hfunction
  rw [bound_cons, Level.surplus_call, Nat.zero_add]
  omega

/-- A call without arguments is an operand. -/
theorem emptyCall {name : String} (range opening closing : Text.Range) {entry : Entry Function}
    (hfunction : scope.functions.find? name = some entry)
    (harity : entry.content.arity = .fixed 0) (h : Reached scope false levels before s)
    (htakes : Takes scope ⟨.rightBracket, closing⟩
      ⟨s.operands, .leftBracket opening :: .function name range :: s.pending, 1 :: s.counts⟩ t) :
    Reached scope true levels (before ++ [⟨.identifier name, range⟩, ⟨.leftBracket, opening⟩,
      ⟨.rightBracket, closing⟩]) t := by
  obtain ⟨opening', hreduces⟩ := htakes.exists_of_rightBracket
  have hbalance := balance_function hfunction range s.operands s.pending 1 s.counts
  have hreduced := hreduces.balance_eq
  rw [harity] at hbalance
  refine h.step ?_ h.room ?_ fun _ hfits => ?_
  · obtain ⟨hpending, hcounts⟩ := stacks_of_enclosing hreduces.enclosing_eq
    rw [State.enclosing, hpending, hcounts]
    exact h.nest
  · rw [bound_true]
    change t.balance scope.functions = State.balance scope.functions
      ⟨s.operands, .function name range :: s.pending, 1 :: s.counts⟩ at hreduced
    change _ + 0 = s.balance scope.functions + 1 at hbalance
    omega
  · have hadmits : entry.content.arity.Admits ([] : List Tree).length := by
      rw [harity]
      rfl
    exact hfits.operand (isExpression_call range opening closing hfunction .nil hadmits
      (List.forall_mem_nil _))

/-- A bracket with no operand before it, or with too few, lets the balance
fall behind. -/
theorem rightBracket (closing : Text.Range) (h : Reached scope ended levels before s)
    (htakes : Takes scope ⟨.rightBracket, closing⟩ s t) :
    Reached scope true levels.tail (before ++ [⟨.rightBracket, closing⟩]) t := by
  obtain ⟨opening, hreduces⟩ := htakes.exists_of_rightBracket
  have hnest := h.nest
  rw [← hreduces.enclosing_eq] at hnest
  obtain ⟨level, rest, rfl, hnest'⟩ := hnest.exists_of_bracket
  obtain ⟨hlevel, hrest⟩ := List.forall_mem_cons.mp h.room
  have hended := bound_le ended rest
  have hbalance := hreduces.balance_eq
  rw [balance_pushBracket] at hbalance
  have hcons := bound_cons ended level rest
  refine h.step hnest' hrest (by rw [List.tail_cons]; omega) fun heq hfits => ?_
  rw [List.tail_cons] at heq
  cases eq_true_of_bound_le (show bound true rest ≤ bound ended rest by omega)
  exact hfits.rightBracket closing (by omega)

/-- So does a separator with no operand before it. -/
theorem separator (range : Text.Range) {arity : Arity} {separators : Nat}
    (hroom : arity.surplus (separators + 2) ≤ 0)
    (h : Reached scope ended (.call arity separators :: levels) before s)
    (htakes : Takes scope ⟨.separator, range⟩ s t) :
    Reached scope false (.call arity (separators + 1) :: levels)
      (before ++ [⟨.separator, range⟩]) t := by
  obtain ⟨opening, operands, pending, count, counts, hreduces, rfl⟩ := htakes.exists_of_separator
  have hnest := h.nest
  have hended := bound_le ended levels
  have htrue := bound_true levels
  have hreduced := hreduces.balance_eq
  rw [← hreduces.enclosing_eq] at hnest
  cases hnest with
  | @call name range' _ entry _ pending _ _ hfunction hnest' =>
    -- The separator changes the count of the call, and nothing else.
    have hbefore := balance_function hfunction range' operands pending (separators + 1) counts
    have hafter : State.balance scope.functions ⟨operands, .leftBracket opening ::
        .function name range' :: pending, (separators + 1 + 1) :: counts⟩ + _ = _ :=
      balance_function hfunction range' operands pending (separators + 1 + 1) counts
    change State.balance scope.functions ⟨operands, .function name range' :: pending, _⟩ = _
      at hreduced
    have hcons := bound_cons ended (.call entry.content.arity separators) levels
    have hcons' := bound_cons false (.call entry.content.arity (separators + 1)) levels
    rw [Level.surplus_call] at hcons hcons'
    refine h.step (.call range' opening (separators + 1) hfunction hnest')
      (List.forall_mem_cons.mpr ⟨hroom, (List.forall_mem_cons.mp h.room).2⟩) (by omega)
      fun heq hfits => ?_
    cases eq_true_of_bound_le (show bound true levels ≤ bound ended levels by omega)
    exact hfits.separator range

/-- At the end of an accepted formula all tokens are in place. -/
theorem isExpression {tree : Tree} {counts : List Nat} (h : Reached scope ended levels before s)
    (hreduces : ReducesAll scope.functions s ⟨[tree], [], counts⟩) :
    IsExpression scope before := by
  have hnest := h.nest
  have hwithin := h.within
  have hbalance : 1 = s.balance scope.functions := hreduces.balance_eq
  rw [← hreduces.enclosing_eq] at hnest
  cases hnest.eq_nil
  have hbound : bound true [] = 1 := rfl
  cases eq_true_of_bound_le (show bound true [] ≤ bound ended [] by omega)
  exact (h.fits (by omega)).isExpression

end Reached

/-- Accepted tokens that keep operands apart are an expression. -/
theorem KeepsApart.isExpression {ended : Bool} {levels : List Level} {tokens before : List Token}
    (h : KeepsApart scope ended levels tokens) {s t : State} {tree : Tree} {counts : List Nat}
    (hreached : Reached scope ended levels before s) (hruns : Runs scope tokens s t)
    (hreduces : ReducesAll scope.functions t ⟨[tree], [], counts⟩) :
    IsExpression scope (before ++ tokens) := by
  induction h generalizing before s with
  | nil ended levels =>
    cases hruns
    rw [List.append_nil]
    exact hreached.isExpression hreduces
  | operand hdenotes _ ih =>
    obtain ⟨next, htakes, hruns⟩ := hruns.exists_of_cons
    rw [htakes.eq_of_denotes hdenotes] at hruns
    simpa using ih (hreached.operand hdenotes) hruns
  | negate range _ ih =>
    obtain ⟨next, htakes, hruns⟩ := hruns.exists_of_cons
    obtain ⟨middle, hreduce, rfl⟩ := htakes.exists_of_operator
    have hnext := hreached.negate range (reducesAll_of_reduceWhile hreduce).1
    simpa using ih hnext hruns
  | binary op range _ ih =>
    obtain ⟨next, htakes, hruns⟩ := hruns.exists_of_cons
    obtain ⟨middle, hreduce, rfl⟩ := htakes.exists_of_operator
    have hnext := hreached.binary op range (reducesAll_of_reduceWhile hreduce).1
    simpa using ih hnext hruns
  | group opening _ ih =>
    obtain ⟨next, htakes, hruns⟩ := hruns.exists_of_cons
    rw [htakes.eq_of_leftBracket] at hruns
    simpa using ih (hreached.group opening) hruns
  | call range opening hfunction hroom _ ih =>
    obtain ⟨named, hnamed, hruns⟩ := hruns.exists_of_cons
    obtain ⟨opened, hopened, hruns⟩ := hruns.exists_of_cons
    rw [hopened.eq_of_leftBracket, hnamed.eq_of_name hfunction] at hruns
    simpa using ih (hreached.call range opening hfunction hroom) hruns
  | emptyCall range opening closing hfunction harity _ ih =>
    obtain ⟨named, hnamed, hruns⟩ := hruns.exists_of_cons
    obtain ⟨opened, hopened, hruns⟩ := hruns.exists_of_cons
    obtain ⟨next, htakes, hruns⟩ := hruns.exists_of_cons
    rw [hopened.eq_of_leftBracket, hnamed.eq_of_name hfunction] at htakes
    simpa using ih (hreached.emptyCall range opening closing hfunction harity htakes) hruns
  | rightBracket closing _ ih =>
    obtain ⟨next, htakes, hruns⟩ := hruns.exists_of_cons
    simpa using ih (hreached.rightBracket closing htakes) hruns
  | separator range hroom _ ih =>
    obtain ⟨next, htakes, hruns⟩ := hruns.exists_of_cons
    simpa using ih (hreached.separator range hroom htakes) hruns
  | outerSeparator range =>
    obtain ⟨next, htakes, hruns⟩ := hruns.exists_of_cons
    obtain ⟨_, _, _, _, _, hreduces', rfl⟩ := htakes.exists_of_separator
    have hnest := hreached.nest
    rw [← hreduces'.enclosing_eq] at hnest
    cases hnest

/-! ## Formulas keep operands apart -/

/-- The tokens of a phrase keep operands apart, whatever stands before and
behind them. -/
def StandsApart (scope : Scope) (tokens : List Token) : Phrase → Prop
  | .operand _ | .chain _ _ => ∀ levels rest,
    KeepsApart scope true levels rest → KeepsApart scope false levels (tokens ++ rest)
  | .arguments arguments => ∀ arity levels rest,
    arguments ≠ [] → arity.surplus arguments.length ≤ 0 →
      KeepsApart scope true (.call arity (arguments.length - 1) :: levels) rest →
        KeepsApart scope false (.call arity 0 :: levels) (tokens ++ rest)

theorem eq_nil_of_reads {tokens : List Token} (h : Reads scope tokens (.arguments [])) :
    tokens = [] := by
  generalize hphrase : Phrase.arguments [] = phrase at h
  cases h with
  | noArguments => rfl
  | moreArguments range hsome h h' => simp at hphrase
  | _ => cases hphrase

theorem standsApart_call {name : String} (range opening closing : Text.Range)
    {entry : Entry Function} {tokens : List Token} {arguments : List Tree}
    (hfunction : scope.functions.find? name = some entry)
    (harity : entry.content.arity.Admits arguments.length)
    (hreads : Reads scope tokens (.arguments arguments))
    (h : StandsApart scope tokens (.arguments arguments)) (tree : Tree) :
    StandsApart scope (⟨.identifier name, range⟩ :: ⟨.leftBracket, opening⟩
      :: (tokens ++ [⟨.rightBracket, closing⟩])) (.operand tree) := by
  intro levels rest hrest
  have hroom := Arity.surplus_eq_zero_iff.mpr harity
  by_cases hnone : arguments = []
  · subst hnone
    have htokens := eq_nil_of_reads hreads
    subst htokens
    refine .emptyCall range opening closing hfunction ?_ hrest
    cases hentry : entry.content.arity with
    | fixed count =>
      rw [hentry] at harity
      have hcount : 0 = count := harity
      rw [hcount]
    | dynamic =>
      rw [hentry] at harity
      exact absurd harity (by decide)
  · have hpos : 1 ≤ arguments.length := List.length_pos_iff.mpr hnone
    have hfirst := Arity.surplus_mono entry.content.arity hpos
    have hinner := h entry.content.arity levels (⟨.rightBracket, closing⟩ :: rest) hnone
      (by omega) (.rightBracket closing hrest)
    have hcall := KeepsApart.call range opening hfunction (by omega) hinner
    simpa using hcall

/-- The tokens of a formula keep operands apart. -/
theorem standsApart_of_reads {tokens : List Token} {phrase : Phrase}
    (h : Reads scope tokens phrase) : StandsApart scope tokens phrase := by
  induction h with
  | integer value range => exact fun _ _ hrest => .operand (.integer value range) hrest
  | decimal value range => exact fun _ _ hrest => .operand (.decimal value range) hrest
  | constantName range hfunction hconstant =>
    exact fun _ _ hrest => .operand (.constantName range hfunction hconstant) hrest
  | variableName range hfunction hconstant =>
    exact fun _ _ hrest => .operand (.variableName range hfunction hconstant) hrest
  | negate range _ ih => exact fun levels rest hrest => .negate range (ih levels rest hrest)
  | group opening closing _ ih =>
    intro levels rest hrest
    have hinner := ih (.group :: levels) (⟨.rightBracket, closing⟩ :: rest)
      (.rightBracket closing hrest)
    have hgroup := KeepsApart.group opening hinner
    simpa using hgroup
  | call range opening closing hfunction harity hreads ih =>
    exact standsApart_call range opening closing hfunction harity hreads ih _
  | single _ ih => exact ih
  | longer op range _ _ ih ih' =>
    intro levels rest hrest
    rw [List.append_assoc]
    exact ih levels _ (.binary op range (ih' levels rest hrest))
  | noArguments => exact fun _ _ _ hsome => absurd rfl hsome
  | argument _ ih => exact fun arity levels rest _ _ hrest => ih _ rest hrest
  | @moreArguments range tokens tokens' arguments first links hsome _ _ ih ih' =>
    intro arity levels rest _ hroom hrest
    have hlength : (arguments ++ [arrange first links]).length = arguments.length - 1 + 2 := by
      have hpos := List.length_pos_iff.mpr hsome
      rw [List.length_append, List.length_singleton]
      omega
    rw [hlength] at hroom hrest
    have hless : arity.surplus arguments.length ≤ arity.surplus (arguments.length - 1 + 2) :=
      Arity.surplus_mono arity (by omega)
    rw [List.append_assoc]
    exact ih arity levels _ hsome (by omega) (.separator range hroom (ih' _ rest hrest))

theorem keepsApart_of_reads {tokens : List Token} {first : Tree} {links : List Link}
    (h : Reads scope tokens (.chain first links)) : KeepsApart scope false [] tokens := by
  have happart := standsApart_of_reads h [] [] (.nil true [])
  rwa [List.append_nil] at happart

/-! ## Accepted tokens -/

theorem KeepsApart.exists_reads {tokens : List Token} (h : KeepsApart scope false [] tokens)
    {tree : Tree} (hok : Tree.ofTokens scope tokens = .ok tree) :
    ∃ first links, Reads scope tokens (.chain first links) := by
  obtain ⟨s, counts, hruns, hreduces⟩ := exists_runs_of_ofTokens hok
  obtain ⟨written, horder, hexact⟩ := h.isExpression .start hruns hreduces
  rw [List.nil_append] at horder
  exact reads_of_inOrder horder hexact

/-- Tokens that keep operands apart are accepted only if they are a formula: a
binary operator then stands after all the tokens of its left operand and before
all those of its right operand, and a minus sign before those of its operand.
All other such tokens are refused. -/
theorem accepts_formulas_only {tokens : List Token} (h : KeepsApart scope false [] tokens) :
    (∀ tree, Tree.ofTokens scope tokens = .ok tree → InOrder scope tokens [tree]) ∧
      ((∃ tree, Tree.ofTokens scope tokens = .ok tree) ↔
        ∃ first links, Reads scope tokens (.chain first links)) := by
  refine ⟨fun tree hok => ?_, ⟨?_, ?_⟩⟩
  · obtain ⟨first, links, hreads⟩ := h.exists_reads hok
    rw [eq_arrange_of_ofTokens hreads hok]
    exact (writesDown_of_reads hreads).inOrder
  · rintro ⟨tree, hok⟩
    exact h.exists_reads hok
  · rintro ⟨first, links, hreads⟩
    exact ⟨_, ofTokens_of_chain hreads⟩

end

/-- The tokens of a tree do not end with an operator. -/
theorem exists_last_of_inOrder {scope : Scope} {tokens : List Token} {trees : List Tree}
    (h : InOrder scope tokens trees) (hsome : trees ≠ []) :
    ∃ last, tokens.getLast? = some last ∧ ∀ op, last.kind ≠ .operator op := by
  induction h with
  | @operand token tree h => exact ⟨token, rfl, by cases h <;> nofun⟩
  | negate range _ ih =>
    obtain ⟨last, hlast, hkind⟩ := ih (List.cons_ne_nil _ _)
    exact ⟨last, by simp [List.getLast?_cons, hlast], hkind⟩
  | binary op range _ _ _ ih' =>
    obtain ⟨last, hlast, hkind⟩ := ih' (List.cons_ne_nil _ _)
    exact ⟨last, by simp [List.getLast?_cons, hlast], hkind⟩
  | group opening closing _ _ =>
    exact ⟨⟨.rightBracket, closing⟩, by simp [List.getLast?_cons], nofun⟩
  | call range opening closing _ _ _ =>
    exact ⟨⟨.rightBracket, closing⟩, by simp [List.getLast?_cons], nofun⟩
  | nil => exact absurd rfl hsome
  | more range _ _ _ _ ih' =>
    obtain ⟨last, hlast, hkind⟩ := ih' (List.cons_ne_nil _ _)
    exact ⟨last, by simp [List.getLast?_cons, hlast], hkind⟩

/-- The formula `-sin(1) * (3 + x)`. -/
def productTokens : List Token :=
  placed [.operator .negate, .identifier "sin", .leftBracket, .integer 1, .rightBracket,
    .operator (.binary .multiply), .leftBracket, .integer 3, .operator (.binary .add),
    .identifier "x", .rightBracket]

theorem accepts_formulas_only_of_product :
    KeepsApart sinAndIf false [] productTokens ∧
      InOrder sinAndIf productTokens [.binary .multiply (.negate (.call "sin" true [.integer 1]))
        (.binary .add (.integer 3) (.var "x"))] := by
  have hsum : KeepsApart sinAndIf false [.group]
      (placed [.integer 3, .operator (.binary .add), .identifier "x", .rightBracket]) :=
    .operand (.integer 3 _) (.binary .add _ (.operand (.variableName _ (by decide) (by decide))
      (.rightBracket _ (.nil _ _))))
  have hcall : KeepsApart sinAndIf false [] productTokens :=
    .negate _ (.call _ _ find?_sin (by decide) (.operand (.integer 1 _)
      (.rightBracket _ (.binary .multiply _ (.group _ hsum)))))
  exact ⟨hcall, (accepts_formulas_only hcall).1 _ (by with_unfolding_all rfl)⟩

/-- The tokens `1 2 +`. -/
def strayTokens : List Token := placed [.integer 1, .integer 2, .operator (.binary .add)]

/-- They are accepted like `1 + 2`, though the operator stands behind both of
its operands. -/
theorem stray_operator :
    Tree.ofTokens sinAndIf strayTokens = .ok (.binary .add (.integer 1) (.integer 2)) ∧
      ∀ tree, ¬InOrder sinAndIf strayTokens [tree] := by
  refine ⟨by with_unfolding_all rfl, fun tree horder => ?_⟩
  obtain ⟨last, hlast, hkind⟩ := exists_last_of_inOrder horder (List.cons_ne_nil _ _)
  cases hlast
  exact hkind _ rfl

end FormulaEngine.Assembly
