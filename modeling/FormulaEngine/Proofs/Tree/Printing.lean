import FormulaEngine.Proofs.Assembly.Reading
import FormulaEngine.Proofs.Registry.History
import FormulaEngine.Proofs.Token.Spelling
import FormulaEngine.Proofs.Tree.Equality
import FormulaEngine.Tree.Reader

/-!
# A printed tree is read back

The text of a tree goes through three steps when it is read.  Each of them is
followed along the tree.

* `spells_toChars`: the text is split into the tokens `Tree.tokenKinds`, with
  every minus sign as a subtraction.
* `markKinds_tokenKinds`: the signs in front of operands are marked, and no
  others.
* `exists_reads`: the tokens read as an operand that is equal to the tree.

`Tree.IsPrintable` lists what a tree has to satisfy for this.  Only the forms
of its decimals change on the way: a text has no trailing zeros.
-/

namespace FormulaEngine

open Grammar

namespace Tree

/-! ## Printable trees -/

/-- What one node of a printed tree has to satisfy.  Literals have no sign,
and a decimal is not printed like an integer.  A variable has no name of a
function.  A call is written as its function was registered. -/
def NodeIsPrintable (functions : Functions) (caseSensitive : Bool) : Tree → Prop
  | .integer value => 0 ≤ value
  | .decimal value => value.IsFractionOrHuge
  | .var name =>
    isIdentifier name = true ∧ Text.canonical caseSensitive name = name ∧
      functions.find? name = none
  | .binary _ _ _ => True
  | .negate _ => True
  | .call name idempotent arguments =>
    isIdentifier name = true ∧ Text.canonical functions.caseSensitive name = name ∧
      ∃ entry, functions.find? name = some entry ∧
        entry.content.arity.Admits arguments.length ∧
        (idempotent && allIdempotent arguments) =
          (entry.content.isIdempotent && allIdempotent arguments)

/-- Every node can be printed and read back. -/
def IsPrintable (functions : Functions) (caseSensitive : Bool) (tree : Tree) : Prop :=
  ∀ node ∈ tree.subtrees, node.NodeIsPrintable functions caseSensitive

section

variable {functions : Functions} {caseSensitive : Bool}

instance : ∀ tree : Tree, Decidable (tree.NodeIsPrintable functions caseSensitive)
  | .integer value => inferInstanceAs (Decidable (0 ≤ value))
  | .decimal value => inferInstanceAs (Decidable value.IsFractionOrHuge)
  | .var _ => inferInstanceAs (Decidable (_ ∧ _ ∧ _ = none))
  | .binary _ _ _ => inferInstanceAs (Decidable True)
  | .negate _ => inferInstanceAs (Decidable True)
  | .call name _ _ => inferInstanceAs (Decidable (_ ∧ _ ∧ ∃ entry ∈ functions.find? name, _ ∧ _))

instance (tree : Tree) : Decidable (tree.IsPrintable functions caseSensitive) :=
  inferInstanceAs (Decidable (∀ node ∈ tree.subtrees, _))

theorem isPrintable_binary {op : BinaryOp} {left right : Tree}
    (h : (binary op left right).IsPrintable functions caseSensitive) :
    left.IsPrintable functions caseSensitive ∧ right.IsPrintable functions caseSensitive := by
  rw [IsPrintable, subtrees, List.forall_mem_cons, List.forall_mem_append] at h
  exact h.2

theorem isPrintable_negate {argument : Tree}
    (h : (negate argument).IsPrintable functions caseSensitive) :
    argument.IsPrintable functions caseSensitive := by
  rw [IsPrintable, subtrees, List.forall_mem_cons] at h
  exact h.2

theorem isPrintable_call {name : String} {idempotent : Bool} {arguments : List Tree}
    (h : (call name idempotent arguments).IsPrintable functions caseSensitive) :
    (call name idempotent arguments).NodeIsPrintable functions caseSensitive ∧
      ∀ argument ∈ arguments, argument.IsPrintable functions caseSensitive := by
  rw [IsPrintable, subtrees, List.forall_mem_cons, allSubtrees_eq] at h
  refine ⟨h.1, fun argument hmem node hnode => h.2 node ?_⟩
  exact List.mem_flatMap.mpr ⟨argument, hmem, hnode⟩

end

/-! ## The tokens of a printed tree -/

mutual

/-- The kinds of the tokens of a printed tree. -/
def tokenKinds : Tree → List TokenKind
  | .integer value => [.integer value]
  | .decimal value => [.decimal value.normalize]
  | .var name => [.identifier name]
  | .binary op left right =>
    .leftBracket :: (left.tokenKinds ++
      .operator (.binary op) :: (right.tokenKinds ++ [.rightBracket]))
  | .negate argument => .operator .negate :: argument.tokenKinds
  | .call name _ arguments =>
    .identifier name :: .leftBracket :: (argumentKinds arguments ++ [.rightBracket])

/-- The kinds of the tokens of printed arguments. -/
def argumentKinds : List Tree → List TokenKind
  | [] => []
  | [tree] => tree.tokenKinds
  | tree :: trees => tree.tokenKinds ++ .separator :: argumentKinds trees

end

end Tree

/-- The kind of a token as it is read at first: a minus sign is always a
subtraction. -/
def unmarked : TokenKind → TokenKind
  | .operator .negate => .operator (.binary .subtract)
  | kind => kind

namespace Tree

/-! ## From the text to tokens -/

theorem spells_argumentChars {arguments : List Tree} {rest : List Char} (hends : Ends rest)
    (h : ∀ argument ∈ arguments, ∀ rest', Ends rest' →
      Spells {} argument.toChars rest' (argument.tokenKinds.map unmarked)) :
    Spells {} (argumentChars arguments) rest ((argumentKinds arguments).map unmarked) := by
  induction arguments with
  | nil =>
    intro position
    refine ⟨[], position, rfl, ?_⟩
    rw [argumentChars, List.nil_append]
    cases readTokens {} position rest <;> rfl
  | cons first others ih =>
    rw [List.forall_mem_cons] at h
    cases others with
    | nil => exact h.1 rest hends
    | cons second others =>
      have hfirst := h.1 (',' :: ' ' :: (argumentChars (second :: others) ++ rest))
        (ends_cons _ rfl (by decide))
      have hcomma := (spells_symbol ',' .separator _ (by simp)).append
        ((spells_gap ' ' _ rfl).append (ih h.2))
      rw [argumentChars, argumentKinds, List.map_append, List.map_cons]
      · exact hfirst.append hcomma
      · exact List.cons_ne_nil _ _
      · exact List.cons_ne_nil _ _

/-- The text of a printable tree is split into its tokens. -/
theorem spells_toChars {functions : Functions} {caseSensitive : Bool} {tree : Tree}
    (h : tree.IsPrintable functions caseSensitive) :
    ∀ rest, Ends rest → Spells {} tree.toChars rest (tree.tokenKinds.map unmarked) := by
  induction tree with
  | integer value =>
    exact fun rest hends => spells_integer (h _ List.mem_cons_self) hends
  | decimal value =>
    exact fun rest hends => spells_decimal (h _ List.mem_cons_self) hends
  | var name =>
    exact fun rest hends => spells_identifier (h _ List.mem_cons_self).1 hends
  | binary op left right ihl ihr =>
    intro rest hends
    obtain ⟨hleft, hright⟩ := isPrintable_binary h
    have hspells := ihl hleft (' ' :: (op.symbol.toList ++ ' ' :: (right.toChars ++ ')' :: rest)))
      (ends_cons _ rfl (by decide))
    have hspells' := ihr hright (')' :: rest) (ends_cons _ rfl (by decide))
    have hclose : Spells {} [')'] rest [.rightBracket] := spells_symbol _ _ rest (by simp)
    have htail : Spells {} (op.symbol.toList ++ ' ' :: (right.toChars ++ [')'])) rest
        (.operator (.binary op) :: (right.tokenKinds.map unmarked ++ [.rightBracket])) :=
      (spells_operator op _).append ((spells_gap _ _ rfl).append (hspells'.append hclose))
    have hwhole := (spells_symbol '(' .leftBracket _ (by simp)).append
      (Spells.append (by simpa using hspells) ((spells_gap ' ' _ rfl).append htail))
    simpa [toChars, tokenKinds, unmarked] using hwhole
  | negate argument ih =>
    intro rest hends
    exact (spells_symbol '-' (.operator (.binary .subtract)) _ (by simp)).append
      (ih (isPrintable_negate h) rest hends)
  | call name idempotent arguments ih =>
    intro rest hends
    obtain ⟨⟨hname, _⟩, harguments⟩ := isPrintable_call h
    have hspells := spells_argumentChars (ends_cons rest (c := ')') rfl (by decide))
      fun argument hmem => ih argument hmem (harguments argument hmem)
    have hclose : Spells {} [')'] rest [.rightBracket] := spells_symbol _ _ rest (by simp)
    have hbrackets : Spells {} ('(' :: (argumentChars arguments ++ [')'])) rest
        (.leftBracket :: ((argumentKinds arguments).map unmarked ++ [.rightBracket])) :=
      (spells_symbol _ _ _ (by simp)).append (hspells.append hclose)
    have hwhole := (spells_identifier (p := {}) hname
      (ends_cons (c := '(') (argumentChars arguments ++ [')'] ++ rest) rfl (by decide))).append
        hbrackets
    simpa [toChars, tokenKinds, unmarked] using hwhole

end Tree

/-! ## Marking the minus signs -/

theorem markedKind_of_ne {kind : TokenKind} (previous : Option TokenKind)
    (h : kind ≠ .operator (.binary .subtract)) : markedKind previous kind = kind :=
  if_neg (by simp [h])

/-- After an operand, every operator is a binary one. -/
theorem markedKind_after_operand {last : TokenKind} (kind : TokenKind)
    (h : operandFollows (some last) = false) : markedKind (some last) kind = kind :=
  if_neg (by simp [h])

namespace Tree

/-- The kinds of a tree are marked as they should be, and an operand ends with
its last token. -/
def MarksBack (tree : Tree) : Prop :=
  ∀ previous, operandFollows previous = true → ∀ more, ∃ last,
    operandFollows (some last) = false ∧
      markKinds previous (tree.tokenKinds.map unmarked ++ more) =
        tree.tokenKinds ++ markKinds (some last) more

theorem marksBack_of_single {tree : Tree} {kind : TokenKind} (hkinds : tree.tokenKinds = [kind])
    (hoperand : operandFollows (some kind) = false) : tree.MarksBack := by
  intro previous _ more
  have hsame : unmarked kind = kind := by
    cases kind with
    | operator op => cases hoperand
    | integer _ | decimal _ | identifier _ | leftBracket | rightBracket | separator => rfl
  have hne : kind ≠ .operator (.binary .subtract) := by
    rintro rfl
    cases hoperand
  refine ⟨kind, hoperand, ?_⟩
  rw [hkinds, List.map_singleton, hsame, List.singleton_append, markKinds,
    markedKind_of_ne previous hne]
  rfl

theorem markKinds_argumentKinds (arguments : List Tree) (previous : Option TokenKind)
    (hprevious : operandFollows previous = true) (more : List TokenKind)
    (h : ∀ argument ∈ arguments, argument.MarksBack) :
    markKinds previous ((argumentKinds arguments).map unmarked ++ .rightBracket :: more) =
      argumentKinds arguments ++ .rightBracket :: markKinds (some .rightBracket) more := by
  induction arguments generalizing previous with
  | nil => rfl
  | cons first others ih =>
    rw [List.forall_mem_cons] at h
    cases others with
    | nil =>
      obtain ⟨last, hlast, hmark⟩ := h.1 previous hprevious (.rightBracket :: more)
      rw [argumentKinds, hmark, markKinds, markedKind_after_operand _ hlast]
    | cons second others =>
      have hrest := ih (some .separator) rfl h.2
      obtain ⟨last, hlast, hmark⟩ := h.1 previous hprevious
        (.separator :: ((argumentKinds (second :: others)).map unmarked ++ .rightBracket :: more))
      rw [argumentKinds, List.map_append, List.append_assoc, List.map_cons, List.cons_append,
        List.append_assoc, List.cons_append]
      · show markKinds previous (first.tokenKinds.map unmarked ++ .separator :: _) = _
        rw [hmark, markKinds, markedKind_after_operand _ hlast, hrest]
      · exact List.cons_ne_nil _ _

/-- Exactly the minus signs in front of operands are marked. -/
theorem markKinds_tokenKinds (tree : Tree) : tree.MarksBack := by
  induction tree with
  | integer value => exact marksBack_of_single rfl rfl
  | decimal value => exact marksBack_of_single rfl rfl
  | var name => exact marksBack_of_single rfl rfl
  | binary op left right ihl ihr =>
    intro previous _ more
    obtain ⟨last', hlast', hright⟩ := ihr (some (.operator (.binary op))) rfl
      (.rightBracket :: more)
    obtain ⟨last, hlast, hleft⟩ := ihl (some .leftBracket) rfl
      (.operator (.binary op) :: (right.tokenKinds.map unmarked ++ .rightBracket :: more))
    refine ⟨.rightBracket, rfl, ?_⟩
    have hshape : (binary op left right).tokenKinds.map unmarked ++ more =
        .leftBracket :: (left.tokenKinds.map unmarked ++
          .operator (.binary op) :: (right.tokenKinds.map unmarked ++ .rightBracket :: more)) := by
      simp [tokenKinds, unmarked]
    rw [hshape, markKinds, markedKind_of_ne previous (by simp), hleft, markKinds,
      markedKind_after_operand _ hlast, hright, markKinds, markedKind_after_operand _ hlast']
    simp [tokenKinds]
  | negate argument ih =>
    intro previous hprevious more
    obtain ⟨last, hlast, hmark⟩ := ih (some (.operator .negate)) rfl more
    have hsign : markedKind previous (.operator (.binary .subtract)) = .operator .negate := by
      simp [markedKind, hprevious]
    refine ⟨last, hlast, ?_⟩
    rw [tokenKinds, List.map_cons, List.cons_append, unmarked, markKinds, hsign, hmark]
    rfl
  | call name idempotent arguments ih =>
    intro previous _ more
    have harguments := markKinds_argumentKinds arguments (some .leftBracket) rfl more ih
    have hshape : (call name idempotent arguments).tokenKinds.map unmarked ++ more =
        .identifier name :: .leftBracket ::
          ((argumentKinds arguments).map unmarked ++ .rightBracket :: more) := by
      simp [tokenKinds, unmarked]
    refine ⟨.rightBracket, rfl, ?_⟩
    rw [hshape, markKinds, markedKind_of_ne previous (by simp), markKinds,
      markedKind_of_ne _ (by simp), harguments]
    simp [tokenKinds]

/-! ## From tokens to the tree -/

end Tree

/-- Arguments can be read from the first one on. -/
theorem Grammar.Reads.cons_arguments {scope : Scope} {tokens tokens' : List Token} {first : Tree}
    {links : List Link} {phrase : Phrase} (range : Text.Range)
    (h : Reads scope tokens (.chain first links)) (h' : Reads scope tokens' phrase) :
    ∀ arguments, phrase = .arguments arguments → arguments ≠ [] →
      Reads scope (tokens ++ ⟨.separator, range⟩ :: tokens')
        (.arguments (arrange first links :: arguments)) := by
  induction h' with
  | noArguments =>
    intro arguments heq hsome
    cases heq
    exact absurd rfl hsome
  | argument hlast _ =>
    intro arguments heq _
    cases heq
    exact .moreArguments range (List.cons_ne_nil _ _) (.argument h) hlast
  | @moreArguments range' before last done _ _ hdone _ hlast ih _ =>
    intro arguments heq _
    cases heq
    have hread := Reads.moreArguments range' (List.cons_ne_nil _ _) (ih _ rfl hdone) hlast
    rwa [List.append_assoc, List.cons_append] at hread
  | _ =>
    intro arguments heq
    cases heq

namespace Tree

variable {functions : Functions} {caseSensitive : Bool}

/-- The tokens of a tree read as a tree that is equal to it. -/
def ReadsBack (scope : Scope) (tree : Tree) : Prop :=
  ∀ tokens, tokens.map Token.kind = tree.tokenKinds →
    ∃ parsed, Reads scope tokens (.operand parsed) ∧ parsed.equals tree = true

theorem exists_of_map_kind_singleton {tokens : List Token} {kind : TokenKind}
    (h : tokens.map Token.kind = [kind]) : ∃ range, tokens = [⟨kind, range⟩] := by
  obtain ⟨token, rfl, rfl⟩ := List.map_eq_singleton_iff.mp h
  exact ⟨token.range, rfl⟩

theorem exists_of_map_kind_cons {tokens : List Token} {kind : TokenKind}
    {kinds : List TokenKind} (h : tokens.map Token.kind = kind :: kinds) :
    ∃ range rest, tokens = ⟨kind, range⟩ :: rest ∧ rest.map Token.kind = kinds := by
  obtain ⟨token, rest, rfl, rfl, rfl⟩ := List.map_eq_cons_iff.mp h
  exact ⟨token.range, rest, rfl, rfl⟩

theorem exists_reads_arguments {scope : Scope} {arguments : List Tree}
    (h : ∀ argument ∈ arguments, argument.ReadsBack scope) :
    ∀ tokens, tokens.map Token.kind = argumentKinds arguments →
      ∃ parsed, Reads scope tokens (.arguments parsed) ∧
        List.Forall₂ (fun tree tree' => tree.equals tree' = true) parsed arguments := by
  induction arguments with
  | nil =>
    intro tokens hkinds
    cases List.map_eq_nil_iff.mp hkinds
    exact ⟨[], .noArguments, .nil⟩
  | cons first others ih =>
    intro tokens hkinds
    rw [List.forall_mem_cons] at h
    cases others with
    | nil =>
      obtain ⟨parsed, hread, hequals⟩ := h.1 tokens hkinds
      have hargument := Reads.argument (.single hread)
      rw [arrange_nil] at hargument
      exact ⟨[parsed], hargument, .cons hequals .nil⟩
    | cons second others =>
      rw [argumentKinds] at hkinds
      · obtain ⟨before, rest, rfl, hbefore, hrest⟩ := List.map_eq_append_iff.mp hkinds
        obtain ⟨range, after, rfl, hafter⟩ := exists_of_map_kind_cons hrest
        obtain ⟨parsed, hread, hequals⟩ := h.1 before hbefore
        obtain ⟨others', hreads, hothers⟩ := ih h.2 after hafter
        have hsome : others' ≠ [] := by
          rintro rfl
          cases hothers
        have harguments := Reads.cons_arguments range (.single hread) hreads _ rfl hsome
        rw [arrange_nil] at harguments
        exact ⟨parsed :: others', harguments, .cons hequals hothers⟩
      · exact List.cons_ne_nil _ _

/-- The tokens of a printable tree read as an operand that is equal to it. -/
theorem exists_reads {tree : Tree} (h : tree.IsPrintable functions caseSensitive) :
    tree.ReadsBack ⟨functions, .empty caseSensitive, caseSensitive⟩ := by
  induction tree with
  | integer value =>
    intro tokens hkinds
    obtain ⟨range, rfl⟩ := exists_of_map_kind_singleton hkinds
    exact ⟨_, .integer value range, equals_refl _⟩
  | decimal value =>
    intro tokens hkinds
    obtain ⟨range, rfl⟩ := exists_of_map_kind_singleton hkinds
    exact ⟨_, .decimal _ range, Decimal.equals_normalize value⟩
  | var name =>
    intro tokens hkinds
    obtain ⟨range, rfl⟩ := exists_of_map_kind_singleton hkinds
    obtain ⟨_, hcanonical, hfunction⟩ := h _ List.mem_cons_self
    refine ⟨_, .variableName range hfunction (Registry.find?_empty caseSensitive name), ?_⟩
    dsimp only
    rw [hcanonical]
    exact equals_refl _
  | binary op left right ihl ihr =>
    intro tokens hkinds
    obtain ⟨hleft, hright⟩ := isPrintable_binary h
    rw [tokenKinds] at hkinds
    obtain ⟨opening, inner, rfl, hinner⟩ := exists_of_map_kind_cons hkinds
    obtain ⟨before, tail, rfl, hbefore, htail⟩ := List.map_eq_append_iff.mp hinner
    obtain ⟨range, tail', rfl, htail'⟩ := exists_of_map_kind_cons htail
    obtain ⟨after, close, rfl, hafter, hclose⟩ := List.map_eq_append_iff.mp htail'
    obtain ⟨closing, rfl⟩ := exists_of_map_kind_singleton hclose
    obtain ⟨left', hreads, hequals⟩ := ihl hleft before hbefore
    obtain ⟨right', hreads', hequals'⟩ := ihr hright after hafter
    have hgroup := Reads.group opening closing (.longer op range (.single hreads) hreads')
    rw [List.nil_append, arrange_singleton, List.append_assoc, List.cons_append] at hgroup
    exact ⟨_, hgroup, by simp [equals, hequals, hequals']⟩
  | negate argument ih =>
    intro tokens hkinds
    obtain ⟨range, rest, rfl, hrest⟩ := exists_of_map_kind_cons hkinds
    obtain ⟨parsed, hreads, hequals⟩ := ih (isPrintable_negate h) rest hrest
    exact ⟨_, .negate range hreads, hequals⟩
  | call name idempotent arguments ih =>
    intro tokens hkinds
    obtain ⟨⟨_, hcanonical, entry, hfunction, harity, hidempotent⟩, harguments⟩ :=
      isPrintable_call h
    rw [tokenKinds] at hkinds
    obtain ⟨range, tail, rfl, htail⟩ := exists_of_map_kind_cons hkinds
    obtain ⟨opening, tail', rfl, htail'⟩ := exists_of_map_kind_cons htail
    obtain ⟨inner, close, rfl, hinner, hclose⟩ := List.map_eq_append_iff.mp htail'
    obtain ⟨closing, rfl⟩ := exists_of_map_kind_singleton hclose
    obtain ⟨parsed, hreads, hequals⟩ := exists_reads_arguments
      (fun argument hmem => ih argument hmem (harguments argument hmem)) inner hinner
    have hname : entry.name = name := (Registry.name_of_find? hfunction).trans hcanonical
    have hall : allIdempotent parsed = allIdempotent arguments := by
      rw [allIdempotent_eq_all_attributes, allIdempotent_eq_all_attributes,
        map_eq_map_of_forall₂ (hequals.imp fun _ _ h => (attributes_of_equals h).1)]
    refine ⟨_, .call range opening closing hfunction (hequals.length_eq ▸ harity) hreads, ?_⟩
    rw [equals, allEqual_iff.mpr hequals, hname, hall, hidempotent]
    simp

/-! ## The round trip -/

/-- The text of a printable tree is read as a tree that is equal to it, with
the same attributes at every node. -/
theorem read_toText (functions : Functions) (caseSensitive : Bool) (tree : Tree)
    (h : tree.IsPrintable functions caseSensitive) :
    ∃ parsed, Tree.read {} ⟨functions, .empty caseSensitive, caseSensitive⟩ tree.toText
        = .ok parsed ∧
      parsed.equals tree = true ∧
      parsed.subtrees.map attributes = tree.subtrees.map attributes := by
  obtain ⟨tokens, hkinds, htokenize⟩ := (spells_toChars h [] ends_nil).tokenize
  obtain ⟨last, _, hmark⟩ := markKinds_tokenKinds tree none rfl []
  have hmarked : (markNegations none tokens).map Token.kind = tree.tokenKinds := by
    rw [map_kind_markNegations, hkinds, ← List.append_nil (tree.tokenKinds.map unmarked), hmark,
      markKinds, List.append_nil]
  obtain ⟨parsed, hreads, hequals⟩ := exists_reads h _ hmarked
  refine ⟨parsed, ?_, hequals, (attributes_of_equals hequals).2⟩
  have hassemble := Assembly.ofTokens_of_chain (.single hreads)
  rw [arrange_nil] at hassemble
  rw [Tree.read, toText, htokenize]
  dsimp only
  rw [hassemble]

/-- A locked function `zero` without arguments, and a function `f_1` of any
number of arguments that is not idempotent. -/
def samplePrintingFunctions : Functions :=
  ⟨false, [⟨"zero", .fixed 0 fun _ => .ok .zero, false⟩,
    ⟨"f_1", ⟨.dynamic, false, fun arguments => .ok (arguments.headD .zero)⟩, true⟩]⟩

/-- Signs in front of brackets, calls and literals, a decimal with trailing
zeros, and the numbers on both sides of the bound of integers. -/
def signedSample : Tree :=
  .binary .subtract
    (.negate (.negate
      (.binary .power (.decimal ⟨false, 3500, 3, by decide, by decide⟩) (.var "x"))))
    (.binary .modulo
      (.call "f_1" false [.negate (.call "zero" true []), .integer Int64.maxValue])
      (.negate (.decimal ⟨false, 9223372036854775808, 0, by decide, by decide⟩)))

theorem read_toText_of_signs :
    signedSample.IsPrintable samplePrintingFunctions false ∧
      ∃ parsed, Tree.read {} ⟨samplePrintingFunctions, .empty false, false⟩
          "(--(3.5 ^ x) - (f_1(-zero(), 9223372036854775807) % -9223372036854775808))"
          = .ok parsed ∧
        parsed.equals signedSample = true ∧
        parsed.subtrees.map attributes = signedSample.subtrees.map attributes := by
  have htext : signedSample.toText =
      "(--(3.5 ^ x) - (f_1(-zero(), 9223372036854775807) % -9223372036854775808))" := by
    decide +kernel
  refine ⟨by decide, ?_⟩
  rw [← htext]
  exact read_toText samplePrintingFunctions false signedSample (by decide)

end Tree

end FormulaEngine
