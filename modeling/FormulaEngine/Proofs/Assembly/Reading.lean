import FormulaEngine.Proofs.Assembly.Climbing

/-!
# Every formula is assembled to its tree

The assembler reads tokens with three stacks.  This module follows it along
the grammar: `Accepted` says for each kind of phrase what the stacks hold
after its tokens, and `accepted_of_reads` proves it by induction over
`Grammar.Reads`.

An operand is not always finished when its last token is read: the calls and
minus signs in front of it still wait, and go ahead with whatever comes next.
`Settles` says that two states differ only in this, and the specification of
an operand is stated up to it.  Within a chain the stacks hold the waiting
operands of `Grammar.Climb` (`Holds`), above everything that waited before
the chain began.
-/

namespace FormulaEngine.Assembly

open Grammar

/-! ## Reductions -/

/-- Nothing happens if the topmost waiting one does not go ahead. -/
theorem reduceWhile_of_head {functions : Functions} {goesAhead : Pending → Bool} {s : State}
    (h : ∀ top ∈ s.pending.head?, goesAhead top = false) :
    reduceWhile functions goesAhead s = .ok s := by
  rw [reduceWhile]
  split
  · rfl
  · rename_i top pending hpending
    have htop := h top (by rw [hpending]; rfl)
    rw [if_neg (by simp [htop])]

/-- The topmost waiting one goes ahead, and then the others. -/
theorem reduceWhile_of_reduceTop {functions : Functions} {goesAhead : Pending → Bool}
    {s t : State} {top : Pending} {pending : List Pending} (hpending : s.pending = top :: pending)
    (hgoes : goesAhead top = true) (hreduce : reduceTop functions s = .ok t) :
    reduceWhile functions goesAhead s = reduceWhile functions goesAhead t := by
  rw [reduceWhile]
  split
  · rename_i hnil
    rw [hpending] at hnil
    cases hnil
  · rename_i top' pending' hcons
    rw [hpending] at hcons
    cases hcons
    rw [if_pos hgoes]
    split
    · rename_i e he
      rw [hreduce] at he
      cases he
    · rename_i t' ht'
      rw [hreduce] at ht'
      cases ht'
      rfl

/-- The topmost waiting one fails to go ahead. -/
theorem reduceWhile_of_error {functions : Functions} {goesAhead : Pending → Bool} {s : State}
    {e : ParseError} {top : Pending} {pending : List Pending}
    (hpending : s.pending = top :: pending) (hgoes : goesAhead top = true)
    (hreduce : reduceTop functions s = .error e) :
    reduceWhile functions goesAhead s = .error e := by
  rw [reduceWhile]
  split
  · rename_i hnil
    rw [hpending] at hnil
    cases hnil
  · rename_i top' pending' hcons
    rw [hpending] at hcons
    cases hcons
    rw [if_pos hgoes]
    split
    · rename_i e' he'
      rw [hreduce] at he'
      cases he'
      rfl
    · rename_i t ht
      rw [hreduce] at ht
      cases ht

/-- Tokens are accepted in two parts. -/
theorem acceptAll_append {scope : Scope} {s t : State} {tokens : List Token}
    (h : s.acceptAll scope tokens = .ok t) (tokens' : List Token) :
    s.acceptAll scope (tokens ++ tokens') = t.acceptAll scope tokens' := by
  induction tokens generalizing s with
  | nil => cases h; rfl
  | cons token tokens ih =>
    rw [State.acceptAll] at h
    rw [List.cons_append, State.acceptAll]
    split at h
    · cases h
    · exact ih h

/-! ## What waits for more -/

/-- Nothing on top of the waiting ones goes ahead of a minus sign, so an
operand may begin. -/
def State.AwaitsOperand (s : State) : Prop :=
  ∀ top ∈ s.pending.head?, goesBefore .negate top = false

/-- A formula or a part in brackets may begin. -/
def State.IsOpen (s : State) : Prop := ∀ top ∈ s.pending.head?, top.isLeftBracket = true

theorem goesBefore_of_isLeftBracket {top : Pending} (h : top.isLeftBracket = true)
    (next : Operator) : goesBefore next top = false := by
  cases top with
  | leftBracket _ => rfl
  | operator _ _ | function _ _ => cases h

theorem State.IsOpen.awaitsOperand {s : State} (h : s.IsOpen) : s.AwaitsOperand :=
  fun top htop => goesBefore_of_isLeftBracket (h top htop) .negate

theorem State.start_isOpen : State.start.IsOpen := by
  intro top htop
  cases htop

theorem isOpen_pushBracket (s : State) (range : Text.Range) :
    (s.pushPending (.leftBracket range)).IsOpen := by
  intro top htop
  cases htop
  rfl

theorem awaitsOperand_pushOperator (s : State) (op : Operator) (range : Text.Range) :
    (s.pushPending (.operator op range)).AwaitsOperand := by
  intro top htop
  cases htop
  cases op with
  | negate => rfl
  | binary op => cases op <;> rfl

/-- What lets every call and every minus sign go ahead: any binary operator,
and everything that ends a chain. -/
structure Finishes (goesAhead : Pending → Bool) : Prop where
  function : ∀ name range, goesAhead (.function name range) = true
  negate : ∀ range, goesAhead (.operator .negate range) = true

theorem finishes_goesBefore (op : BinaryOp) : Finishes (goesBefore (.binary op)) := by
  constructor
  · intro name range
    rfl
  · intro range
    cases op <;> rfl

theorem finishes_not_isLeftBracket : Finishes fun p => !p.isLeftBracket :=
  ⟨fun _ _ => rfl, fun _ => rfl⟩

/-- The states are the same once the calls and minus signs on top have gone
ahead. -/
def Settles (functions : Functions) (s t : State) : Prop :=
  ∀ goesAhead, Finishes goesAhead →
    reduceWhile functions goesAhead s = reduceWhile functions goesAhead t

theorem Settles.refl (functions : Functions) (s : State) : Settles functions s s :=
  fun _ _ => rfl

/-- A minus sign takes the operand after it. -/
theorem settles_negate (functions : Functions) (s : State) (range : Text.Range) (tree : Tree) :
    Settles functions ((s.pushPending (.operator .negate range)).pushOperand tree)
      (s.pushOperand (.negate tree)) :=
  fun _ hfinishes => reduceWhile_of_reduceTop rfl (hfinishes.negate range) rfl

/-! ## Chains on the stacks -/

/-- The state holds the waiting operands of a chain above those of `frame`. -/
inductive Holds (frame : State) : List Waiting → State → Prop where
  | nil : Holds frame [] frame
  | cons (top : Waiting) (range : Text.Range) {stack : List Waiting} {s : State}
      (h : Holds frame stack s) :
      Holds frame (top :: stack)
        ((s.pushOperand top.operand).pushPending (.operator (.binary top.op) range))

theorem Holds.awaitsOperand {frame s : State} {stack : List Waiting} (hopen : frame.IsOpen)
    (h : Holds frame stack s) : s.AwaitsOperand := by
  cases h with
  | nil => exact hopen.awaitsOperand
  | cons top range h => exact awaitsOperand_pushOperator _ _ _

/-- An operator that goes ahead takes the two topmost operands. -/
theorem reduceTop_binary (functions : Functions) (s : State) (top : Waiting) (range : Text.Range)
    (last : Tree) :
    reduceTop functions
        (((s.pushOperand top.operand).pushPending (.operator (.binary top.op) range)).pushOperand
          last) =
      .ok (s.pushOperand (.binary top.op top.operand last)) := rfl

/-- A new operator lets those go ahead that the chain lets go ahead. -/
theorem reduceWhile_goesBefore (functions : Functions) (next : BinaryOp) {frame s : State}
    {stack : List Waiting} (hopen : frame.IsOpen) (h : Holds frame stack s) (last : Tree) :
    ∃ t, Holds frame (Climb.settle next stack last).stack t ∧
      reduceWhile functions (goesBefore (.binary next)) (s.pushOperand last) =
        .ok (t.pushOperand (Climb.settle next stack last).last) := by
  induction h generalizing last with
  | nil =>
    -- What waits in the frame is behind a bracket.
    refine ⟨frame, .nil, reduceWhile_of_head ?_⟩
    exact fun top htop => goesBefore_of_isLeftBracket (hopen top htop) _
  | cons top range h ih =>
    rw [Climb.settle]
    cases hyields : (Operator.binary top.op).yieldsTo (.binary next) with
    | true =>
      obtain ⟨t, hholds, hreduce⟩ := ih (.binary top.op top.operand last)
      refine ⟨t, hholds, ?_⟩
      rw [reduceWhile_of_reduceTop rfl hyields (reduceTop_binary _ _ _ _ _)]
      exact hreduce
    | false =>
      refine ⟨_, .cons top range h, reduceWhile_of_head ?_⟩
      intro p hp
      cases hp
      exact hyields

/-- The end of a chain lets all of it go ahead. -/
theorem reduceToBracket_of_holds (functions : Functions) {frame s : State} {stack : List Waiting}
    (hopen : frame.IsOpen) (h : Holds frame stack s) (last : Tree) :
    reduceToBracket functions (s.pushOperand last) =
      .ok (frame.pushOperand (Climb.total ⟨stack, last⟩)) := by
  induction h generalizing last with
  | nil =>
    refine reduceWhile_of_head fun top htop => ?_
    rw [hopen top htop]
    rfl
  | cons top range h ih =>
    rw [reduceToBracket, reduceWhile_of_reduceTop rfl rfl (reduceTop_binary _ _ _ _ _)]
    exact ih _

/-! ## Phrases -/

/-- What the stacks hold after the tokens of a phrase. -/
def Accepted (scope : Scope) (tokens : List Token) : Phrase → Prop
  | .operand tree => ∀ s : State, s.AwaitsOperand →
    ∃ t, s.acceptAll scope tokens = .ok t ∧
      Settles scope.functions t (s.pushOperand tree)
  | .chain first links => ∀ frame : State, frame.IsOpen →
    ∃ s t, Holds frame (Climb.advanceAll ⟨[], first⟩ links).stack s ∧
      frame.acceptAll scope tokens = .ok t ∧
      Settles scope.functions t (s.pushOperand (Climb.advanceAll ⟨[], first⟩ links).last)
  | .arguments trees => ∀ operands range pending count counts,
    ∃ t, State.acceptAll scope ⟨operands, .leftBracket range :: pending, count :: counts⟩ tokens
        = .ok t ∧
      reduceToBracket scope.functions t =
        .ok ⟨trees.reverse ++ operands, .leftBracket range :: pending,
          (count + (trees.length - 1)) :: counts⟩

/-- What ends a chain finds its tree. -/
theorem reduceToBracket_of_chain {scope : Scope} {tokens : List Token} {first : Tree}
    {links : List Link} (h : Accepted scope tokens (.chain first links)) {frame : State}
    (hopen : frame.IsOpen) :
    ∃ t, frame.acceptAll scope tokens = .ok t ∧
      reduceToBracket scope.functions t = .ok (frame.pushOperand (arrange first links)) := by
  obtain ⟨s, t, hholds, haccept, hsettles⟩ := h frame hopen
  refine ⟨t, haccept, ?_⟩
  rw [reduceToBracket, hsettles _ finishes_not_isLeftBracket, ← Climb.total_advanceAll]
  exact reduceToBracket_of_holds scope.functions hopen hholds _

/-- A token that is an operand by itself. -/
theorem accepted_token {scope : Scope} {token : Token} {tree : Tree}
    (h : ∀ s : State, s.accept scope token = .ok (s.pushOperand tree)) :
    Accepted scope [token] (.operand tree) := by
  intro s _
  refine ⟨s.pushOperand tree, ?_, Settles.refl _ _⟩
  rw [State.acceptAll, h s]
  rfl

theorem accepted_negate {scope : Scope} {tokens : List Token} {tree : Tree} (range : Text.Range)
    (h : Accepted scope tokens (.operand tree)) :
    Accepted scope (⟨.operator .negate, range⟩ :: tokens) (.operand (.negate tree)) := by
  intro s hawaits
  obtain ⟨t, haccept, hsettles⟩ :=
    h (s.pushPending (.operator .negate range)) (awaitsOperand_pushOperator _ _ _)
  refine ⟨t, ?_, fun goesAhead hfinishes => ?_⟩
  · have hstay : reduceWhile scope.functions (goesBefore .negate) s = .ok s :=
      reduceWhile_of_head hawaits
    rw [State.acceptAll]
    dsimp only [State.accept, acceptOperator]
    rw [hstay]
    exact haccept
  · rw [hsettles goesAhead hfinishes]
    exact settles_negate scope.functions s range tree goesAhead hfinishes

theorem accepted_group {scope : Scope} {tokens : List Token} {first : Tree} {links : List Link}
    (opening closing : Text.Range) (h : Accepted scope tokens (.chain first links)) :
    Accepted scope (⟨.leftBracket, opening⟩ :: (tokens ++ [⟨.rightBracket, closing⟩]))
      (.operand (arrange first links)) := by
  intro s _
  obtain ⟨t, haccept, hreduce⟩ := reduceToBracket_of_chain h (isOpen_pushBracket s opening)
  refine ⟨s.pushOperand (arrange first links), ?_, Settles.refl _ _⟩
  rw [State.acceptAll]
  dsimp only [State.accept]
  rw [acceptAll_append haccept, State.acceptAll]
  dsimp only [State.accept]
  rw [acceptRightBracket, hreduce]
  rfl

theorem accepted_chain {scope : Scope} {tokens : List Token} {tree : Tree}
    (h : Accepted scope tokens (.operand tree)) : Accepted scope tokens (.chain tree []) := by
  intro frame hopen
  obtain ⟨t, haccept, hsettles⟩ := h frame hopen.awaitsOperand
  exact ⟨frame, t, .nil, haccept, hsettles⟩

theorem accepted_longer {scope : Scope} {tokens tokens' : List Token} {first operand : Tree}
    {links : List Link} (op : BinaryOp) (range : Text.Range)
    (h : Accepted scope tokens (.chain first links))
    (h' : Accepted scope tokens' (.operand operand)) :
    Accepted scope (tokens ++ ⟨.operator (.binary op), range⟩ :: tokens')
      (.chain first (links ++ [⟨op, operand⟩])) := by
  intro frame hopen
  -- The operator first finishes the operand before it, then lets the chain settle.
  obtain ⟨s, t, hholds, haccept, hsettles⟩ := h frame hopen
  obtain ⟨s', hholds', hreduce⟩ :=
    reduceWhile_goesBefore scope.functions op hopen hholds (Climb.advanceAll ⟨[], first⟩ links).last
  obtain ⟨t', haccept', hsettles'⟩ := h' _ (awaitsOperand_pushOperator _ (.binary op) range)
  have hadvance : Climb.advanceAll ⟨[], first⟩ (links ++ [⟨op, operand⟩]) =
      (Climb.advanceAll ⟨[], first⟩ links).advance ⟨op, operand⟩ := by
    rw [Climb.advanceAll, List.foldl_append]
    rfl
  rw [hadvance]
  refine ⟨_, t', .cons ⟨_, op⟩ range hholds', ?_, hsettles'⟩
  rw [acceptAll_append haccept, State.acceptAll]
  dsimp only [State.accept, acceptOperator]
  rw [hsettles _ (finishes_goesBefore op), hreduce]
  exact haccept'

theorem accepted_noArguments (scope : Scope) : Accepted scope [] (.arguments []) := by
  intro operands range pending count counts
  exact ⟨_, rfl, reduceWhile_of_head (by intro top htop; cases htop; rfl)⟩

theorem accepted_argument {scope : Scope} {tokens : List Token} {first : Tree}
    {links : List Link} (h : Accepted scope tokens (.chain first links)) :
    Accepted scope tokens (.arguments [arrange first links]) := by
  intro operands range pending count counts
  exact reduceToBracket_of_chain h (isOpen_pushBracket ⟨operands, pending, count :: counts⟩ range)

theorem accepted_moreArguments {scope : Scope} {tokens tokens' : List Token}
    {arguments : List Tree} {first : Tree} {links : List Link} (range : Text.Range)
    (hsome : arguments ≠ []) (h : Accepted scope tokens (.arguments arguments))
    (h' : Accepted scope tokens' (.chain first links)) :
    Accepted scope (tokens ++ ⟨.separator, range⟩ :: tokens')
      (.arguments (arguments ++ [arrange first links])) := by
  intro operands opening pending count counts
  obtain ⟨t, haccept, hreduce⟩ := h operands opening pending count counts
  obtain ⟨t', haccept', hreduce'⟩ := reduceToBracket_of_chain h' (isOpen_pushBracket
    ⟨arguments.reverse ++ operands, pending, (count + (arguments.length - 1) + 1) :: counts⟩
    opening)
  refine ⟨t', ?_, ?_⟩
  · rw [acceptAll_append haccept, State.acceptAll]
    dsimp only [State.accept, acceptSeparator]
    rw [hreduce]
    exact haccept'
  · have hlength : 0 < arguments.length := List.length_pos_iff.mpr hsome
    have hcount : count + ((arguments ++ [arrange first links]).length - 1) =
        count + (arguments.length - 1) + 1 := by
      rw [List.length_append, List.length_singleton]
      omega
    rw [hreduce', hcount, List.reverse_append]
    rfl

/-- A call takes the arguments that were written for it. -/
theorem argumentCount_of_admits {arity : Arity} {written : Nat} (h : arity.Admits written) :
    argumentCount arity (1 + (written - 1)) = written := by
  cases arity with
  | fixed count => exact h.symm
  | dynamic =>
    have hpos : 1 ≤ written := h
    rw [argumentCount]
    omega

theorem reduceFunction_of_admits {functions : Functions} {name : String} (range : Text.Range)
    {entry : Entry Function} {arguments : List Tree} (operands : List Tree)
    (pending : List Pending) (counts : List Nat) (hfunction : functions.find? name = some entry)
    (harity : entry.content.arity.Admits arguments.length) :
    reduceFunction functions name range
        ⟨arguments.reverse ++ operands, pending, (1 + (arguments.length - 1)) :: counts⟩ =
      .ok ⟨.call entry.name entry.content.isIdempotent arguments :: operands, pending, counts⟩ := by
  have hlength : arguments.reverse.length = arguments.length := List.length_reverse
  rw [reduceFunction, hfunction]
  dsimp only [List.headD_cons]
  rw [argumentCount_of_admits harity, if_neg (by simp), List.take_left' hlength,
    List.drop_left' hlength, List.reverse_reverse]
  rfl

theorem accepted_call {scope : Scope} {name : String} (range opening closing : Text.Range)
    {entry : Entry Function} {tokens : List Token} {arguments : List Tree}
    (hfunction : scope.functions.find? name = some entry)
    (harity : entry.content.arity.Admits arguments.length)
    (h : Accepted scope tokens (.arguments arguments)) :
    Accepted scope (⟨.identifier name, range⟩ :: ⟨.leftBracket, opening⟩
        :: (tokens ++ [⟨.rightBracket, closing⟩]))
      (.operand (.call entry.name entry.content.isIdempotent arguments)) := by
  intro s _
  obtain ⟨t, haccept, hreduce⟩ :=
    h s.operands opening (.function name range :: s.pending) 1 s.counts
  refine ⟨⟨arguments.reverse ++ s.operands, .function name range :: s.pending,
    (1 + (arguments.length - 1)) :: s.counts⟩, ?_, fun goesAhead hfinishes => ?_⟩
  · have hname : acceptIdentifier scope name range s =
        ⟨s.operands, .function name range :: s.pending, 1 :: s.counts⟩ := by
      rw [acceptIdentifier, hfunction]
      rfl
    rw [State.acceptAll]
    dsimp only [State.accept]
    rw [hname, State.acceptAll]
    dsimp only [State.accept, State.pushPending]
    rw [acceptAll_append haccept, State.acceptAll]
    dsimp only [State.accept, acceptRightBracket]
    rw [hreduce]
    rfl
  · exact reduceWhile_of_reduceTop rfl (hfinishes.function name range)
      (reduceFunction_of_admits range s.operands s.pending s.counts hfunction harity)

/-- The tokens of every phrase are accepted. -/
theorem accepted_of_reads {scope : Scope} {tokens : List Token} {phrase : Phrase}
    (h : Reads scope tokens phrase) : Accepted scope tokens phrase := by
  induction h with
  | integer value range => exact accepted_token fun _ => rfl
  | decimal value range => exact accepted_token fun _ => rfl
  | constantName range hfunction hconstant =>
    refine accepted_token fun s => ?_
    dsimp only [State.accept, acceptIdentifier]
    rw [hfunction, hconstant]
    rfl
  | variableName range hfunction hconstant =>
    refine accepted_token fun s => ?_
    dsimp only [State.accept, acceptIdentifier]
    rw [hfunction, hconstant]
    rfl
  | negate range _ ih => exact accepted_negate range ih
  | group opening closing _ ih => exact accepted_group opening closing ih
  | call range opening closing hfunction harity _ ih =>
    exact accepted_call range opening closing hfunction harity ih
  | single _ ih => exact accepted_chain ih
  | longer op range _ _ ih ih' => exact accepted_longer op range ih ih'
  | noArguments => exact accepted_noArguments scope
  | argument _ ih => exact accepted_argument ih
  | moreArguments range hsome _ _ ih ih' => exact accepted_moreArguments range hsome ih ih'

/-! ## Whole formulas -/

/-- A chain is assembled to the tree of the splitting rule. -/
theorem ofTokens_of_chain {scope : Scope} {tokens : List Token} {first : Tree}
    {links : List Link} (h : Reads scope tokens (.chain first links)) :
    Tree.ofTokens scope tokens = .ok (arrange first links) := by
  obtain ⟨t, haccept, hreduce⟩ :=
    reduceToBracket_of_chain (accepted_of_reads h) State.start_isOpen
  have hsome : ¬tokens.isEmpty = true := by simpa using h.ne_nil (by simp)
  rw [Tree.ofTokens, if_neg hsome, haccept]
  dsimp only
  rw [State.finish, hreduce]
  rfl

/-- Every formula is assembled, and to the tree of the splitting rule.
Brackets around a part that the rule keeps together do not change it. -/
theorem ofTokens_of_reads {scope : Scope} {tokens : List Token} {first : Tree}
    {links : List Link} (h : Reads scope tokens (.chain first links)) :
    Tree.ofTokens scope tokens = .ok (arrange first links) ∧
      ∀ (tokens' : List Token) (first' : Tree) (links' : List Link),
        Reads scope tokens' (.chain first' links') → Brackets first links first' links' →
          Tree.ofTokens scope tokens' = .ok (arrange first links) := by
  refine ⟨ofTokens_of_chain h, fun tokens' first' links' h' hbrackets => ?_⟩
  rw [ofTokens_of_chain h', arrange_of_brackets hbrackets]

/-- A function `f` of any number of arguments. -/
def entryOfF : Entry Function := ⟨"f", .dynamic fun _ => .ok .zero, false⟩

/-- The function `f` and no constants. -/
def oneFunction : Scope := ⟨⟨false, [entryOfF]⟩, .empty false, false⟩

/-- Tokens at some place in a text. -/
def placed (kinds : List TokenKind) : List Token := kinds.map (⟨·, ⟨⟨1, 1⟩, ⟨1, 2⟩⟩⟩)

/-- The formula `-8 * 3 % F(X)`, in which `*` and `%` bind alike. -/
def remainderTokens : List Token :=
  placed [.operator .negate, .integer 8, .operator (.binary .multiply), .integer 3,
    .operator (.binary .modulo), .identifier "F", .leftBracket, .identifier "X", .rightBracket]

/-- The formula `-8 * (3 % F(X))`. -/
def remainderInBrackets : List Token :=
  placed [.operator .negate, .integer 8, .operator (.binary .multiply), .leftBracket, .integer 3,
    .operator (.binary .modulo), .identifier "F", .leftBracket, .identifier "X", .rightBracket,
    .rightBracket]

/-- The call of `f` in these formulas. -/
def callOfX : Tree := .call "f" true [.var "x"]

theorem reads_callOfX : Reads oneFunction
    (placed [.identifier "F", .leftBracket, .identifier "X", .rightBracket])
    (.operand callOfX) := by
  have hargument : Reads oneFunction (placed [.identifier "X"])
      (.arguments [arrange (.var "x") []]) :=
    .argument (.single (.variableName _ (by decide) (by decide)))
  have hfunction : oneFunction.functions.find? "F" = some entryOfF := rfl
  have harity : entryOfF.content.arity.Admits [Tree.var "x"].length := Nat.le_refl 1
  rw [arrange_nil] at hargument
  exact .call _ _ _ hfunction harity hargument

theorem ofTokens_of_remainder :
    Reads oneFunction remainderTokens
        (.chain (.negate (.integer 8)) [⟨.multiply, .integer 3⟩, ⟨.modulo, callOfX⟩]) ∧
      Tree.ofTokens oneFunction remainderTokens =
        .ok (.binary .multiply (.negate (.integer 8))
          (.binary .modulo (.integer 3) callOfX)) ∧
      Tree.ofTokens oneFunction remainderInBrackets =
        .ok (.binary .multiply (.negate (.integer 8))
          (.binary .modulo (.integer 3) callOfX)) := by
  have hfirst : Reads oneFunction (placed [.operator .negate, .integer 8])
      (.operand (.negate (.integer 8))) := .negate _ (.integer 8 _)
  have hreads : Reads oneFunction remainderTokens
      (.chain (.negate (.integer 8)) [⟨.multiply, .integer 3⟩, ⟨.modulo, callOfX⟩]) :=
    .longer .modulo _ (.longer .multiply _ (.single hfirst) (.integer 3 _)) reads_callOfX
  have hgroup : Reads oneFunction remainderInBrackets
      (.chain (.negate (.integer 8))
        [⟨.multiply, arrange (.integer 3) [⟨.modulo, callOfX⟩]⟩]) :=
    .longer .multiply _ (.single hfirst)
      (.group _ _ (.longer .modulo _ (.single (.integer 3 _)) reads_callOfX))
  have hsplit : SplitsAt [] .multiply [⟨.modulo, callOfX⟩] := by constructor <;> decide
  have htree : arrange (.negate (.integer 8)) [⟨.multiply, .integer 3⟩, ⟨.modulo, callOfX⟩] =
      .binary .multiply (.negate (.integer 8)) (.binary .modulo (.integer 3) callOfX) := by
    rw [← List.nil_append [_, _], arrange_of_splitsAt _ ⟨.multiply, .integer 3⟩ hsplit,
      arrange_nil, arrange_singleton]
  obtain ⟨hplain, hbrackets⟩ := ofTokens_of_reads hreads
  rw [htree] at hplain hbrackets
  exact ⟨hreads, hplain, hbrackets _ _ _ hgroup
    (@Brackets.after _ _ [] _ [] ⟨.multiply, .integer 3⟩ hsplit (.whole _ _))⟩

end FormulaEngine.Assembly
