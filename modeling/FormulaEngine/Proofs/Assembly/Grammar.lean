import FormulaEngine.Tree.Assembly
import Mathlib.Tactic.Common

/-!
# The grammar of formulas

This module says which lists of tokens are formulas and which tree a formula
stands for, without stacks.

A chain is a list of operands with binary operators between them.  It splits
at one of its operators of the lowest level: at the last one that groups from
the left, and if there is none, at the first one.  `SplitsAt` is this rule,
`cut` finds the place, and `arrange` is the tree that the rule gives when it
is applied to both sides again (`arrange_of_splitsAt`).

`Reads` relates tokens to what they read as: an operand, a chain, or the
arguments of a call.  Brackets make an operand of a chain.  `Brackets` puts
them around parts that the rule keeps together anyway, and
`arrange_of_brackets` says that the tree stays the same.
-/

namespace FormulaEngine

/-- The numbers of arguments that a call may be written with. -/
def Arity.Admits : Arity → Nat → Prop
  | .fixed count, written => written = count
  | .dynamic, written => 1 ≤ written

instance : ∀ (arity : Arity) (written : Nat), Decidable (arity.Admits written)
  | .fixed count, written => inferInstanceAs (Decidable (written = count))
  | .dynamic, written => inferInstanceAs (Decidable (1 ≤ written))

namespace Grammar

/-! ## Chains -/

/-- An operator in a chain, and the operand after it. -/
structure Link where
  op : BinaryOp
  operand : Tree

/-- How strongly a binary operator binds. -/
def level (op : BinaryOp) : Nat := (Operator.binary op).precedence

/-- Whether a binary operator groups from the left. -/
def groupsLeft (op : BinaryOp) : Bool := (Operator.binary op).isLeftAssociative

/-- The operator between two parts of a chain is the one at which the chain
splits. -/
structure SplitsAt (before : List Link) (op : BinaryOp) (after : List Link) : Prop where
  /-- No operator of the chain binds more weakly. -/
  lowest : ∀ link ∈ before ++ after, level op ≤ level link.op
  /-- One that groups from the left is the last such of its level. -/
  last : groupsLeft op = true →
    ∀ link ∈ after, level link.op = level op → groupsLeft link.op = false
  /-- For any other, none of its level groups from the left. -/
  mixed : groupsLeft op = false →
    ∀ link ∈ before ++ after, level link.op = level op → groupsLeft link.op = false
  /-- And it is the first of its level. -/
  first : groupsLeft op = false → ∀ link ∈ before, level link.op ≠ level op

/-- The rule looks at the operators of a chain only, and stays true when some
are left out. -/
theorem SplitsAt.of_subset {before before' after after' : List Link} {op : BinaryOp}
    (h : SplitsAt before op after)
    (hbefore : ∀ link' ∈ before', ∃ link ∈ before, link.op = link'.op)
    (hafter : ∀ link' ∈ after', ∃ link ∈ after, link.op = link'.op) :
    SplitsAt before' op after' := by
  have hboth : ∀ link' ∈ before' ++ after', ∃ link ∈ before ++ after, link.op = link'.op := by
    intro link' hmem
    rcases List.mem_append.mp hmem with hmem | hmem
    · obtain ⟨link, hlink, heq⟩ := hbefore link' hmem
      exact ⟨link, List.mem_append_left _ hlink, heq⟩
    · obtain ⟨link, hlink, heq⟩ := hafter link' hmem
      exact ⟨link, List.mem_append_right _ hlink, heq⟩
  constructor
  · intro link' hmem
    obtain ⟨link, hlink, heq⟩ := hboth link' hmem
    exact heq ▸ h.lowest link hlink
  · intro hop link' hmem
    obtain ⟨link, hlink, heq⟩ := hafter link' hmem
    exact heq ▸ h.last hop link hlink
  · intro hop link' hmem
    obtain ⟨link, hlink, heq⟩ := hboth link' hmem
    exact heq ▸ h.mixed hop link hlink
  · intro hop link' hmem
    obtain ⟨link, hlink, heq⟩ := hbefore link' hmem
    exact heq ▸ h.first hop link hlink

/-! ## Finding the split -/

/-- A chain taken apart: the links before one of them, that one, and the
links after it. -/
structure Cut where
  before : List Link
  link : Link
  after : List Link

/-- The first link with a property. -/
def cutFirst (p : Link → Bool) : List Link → Option Cut
  | [] => none
  | link :: links =>
    if p link then some ⟨[], link, links⟩
    else (cutFirst p links).map fun cut => ⟨link :: cut.before, cut.link, cut.after⟩

/-- The last link with a property. -/
def cutLast (p : Link → Bool) : List Link → Option Cut
  | [] => none
  | link :: links =>
    match cutLast p links with
    | some cut => some ⟨link :: cut.before, cut.link, cut.after⟩
    | none => if p link then some ⟨[], link, links⟩ else none

theorem cutFirst_eq_none_iff {p : Link → Bool} {links : List Link} :
    cutFirst p links = none ↔ ∀ link ∈ links, p link = false := by
  induction links with
  | nil => simp [cutFirst]
  | cons link links ih =>
    rw [cutFirst, List.forall_mem_cons, ← ih]
    cases p link <;> simp

theorem cutFirst_eq_some_iff {p : Link → Bool} {links before after : List Link} {link : Link} :
    cutFirst p links = some ⟨before, link, after⟩ ↔
      links = before ++ link :: after ∧ p link = true ∧ ∀ other ∈ before, p other = false := by
  induction links generalizing before with
  | nil => simp [cutFirst]
  | cons head links ih =>
    rw [cutFirst]
    by_cases hhead : p head = true
    · rw [if_pos hhead]
      constructor
      · intro h
        cases h
        exact ⟨rfl, hhead, by simp⟩
      · rintro ⟨heq, _, hbefore⟩
        cases before with
        | nil => cases heq; rfl
        | cons other before =>
          cases heq
          exact absurd hhead (by simp [hbefore])
    · rw [if_neg hhead]
      constructor
      · intro h
        obtain ⟨cut, hcut, heq⟩ := Option.map_eq_some_iff.mp h
        cases heq
        obtain ⟨rfl, hlink, hbefore⟩ := ih.mp hcut
        exact ⟨rfl, hlink, List.forall_mem_cons.mpr ⟨by simpa using hhead, hbefore⟩⟩
      · rintro ⟨heq, hlink, hbefore⟩
        cases before with
        | nil => cases heq; exact absurd hlink hhead
        | cons other before =>
          cases heq
          rw [ih.mpr ⟨rfl, hlink, (List.forall_mem_cons.mp hbefore).2⟩]
          rfl

theorem cutLast_eq_none_iff {p : Link → Bool} {links : List Link} :
    cutLast p links = none ↔ ∀ link ∈ links, p link = false := by
  induction links with
  | nil => simp [cutLast]
  | cons link links ih =>
    rw [cutLast, List.forall_mem_cons, ← ih]
    cases cutLast p links with
    | some cut => simp
    | none => cases p link <;> simp

theorem cutLast_eq_some_iff {p : Link → Bool} {links before after : List Link} {link : Link} :
    cutLast p links = some ⟨before, link, after⟩ ↔
      links = before ++ link :: after ∧ p link = true ∧ ∀ other ∈ after, p other = false := by
  induction links generalizing before with
  | nil => simp [cutLast]
  | cons head links ih =>
    rw [cutLast]
    constructor
    · intro h
      split at h
      · rename_i cut hcut
        cases h
        obtain ⟨rfl, hlink, hafter⟩ := ih.mp hcut
        exact ⟨rfl, hlink, hafter⟩
      · rename_i hnone
        split at h
        · rename_i hhead
          cases h
          exact ⟨rfl, hhead, cutLast_eq_none_iff.mp hnone⟩
        · cases h
    · rintro ⟨heq, hlink, hafter⟩
      cases before with
      | nil =>
        cases heq
        rw [cutLast_eq_none_iff.mpr hafter, if_pos hlink]
      | cons other before =>
        cases heq
        rw [ih.mpr ⟨rfl, hlink, hafter⟩]

/-- Whether no operator of a chain binds more weakly than that of a link. -/
def isLowest (links : List Link) (link : Link) : Bool :=
  links.all fun other => decide (level link.op ≤ level other.op)

theorem isLowest_iff {links : List Link} {link : Link} :
    isLowest links link = true ↔ ∀ other ∈ links, level link.op ≤ level other.op := by
  simp [isLowest]

/-- Links of the level of a lowest one are lowest. -/
theorem isLowest_of_level_eq {links : List Link} {link other : Link}
    (h : isLowest links link = true) (hlevel : level other.op = level link.op) :
    isLowest links other = true := by
  rw [isLowest_iff] at h ⊢
  rw [hlevel]
  exact h

/-- Lowest links have one level. -/
theorem level_eq_of_isLowest {links : List Link} {link other : Link}
    (h : isLowest links link = true) (h' : isLowest links other = true)
    (hmem : link ∈ links) (hmem' : other ∈ links) : level other.op = level link.op :=
  Nat.le_antisymm (isLowest_iff.mp h' link hmem) (isLowest_iff.mp h other hmem')

theorem exists_isLowest {links : List Link} (h : links ≠ []) :
    ∃ link ∈ links, isLowest links link = true := by
  induction links with
  | nil => exact absurd rfl h
  | cons head links ih =>
    by_cases hlinks : links = []
    · subst hlinks
      exact ⟨head, List.mem_cons_self, isLowest_iff.mpr (by simp)⟩
    · obtain ⟨link, hmem, hlowest⟩ := ih hlinks
      rw [isLowest_iff] at hlowest
      rcases Nat.le_total (level head.op) (level link.op) with hle | hle
      · refine ⟨head, List.mem_cons_self, isLowest_iff.mpr ?_⟩
        refine List.forall_mem_cons.mpr ⟨Nat.le_refl _, fun other hother => ?_⟩
        exact Nat.le_trans hle (hlowest other hother)
      · refine ⟨link, List.mem_cons_of_mem _ hmem, isLowest_iff.mpr ?_⟩
        exact List.forall_mem_cons.mpr ⟨hle, hlowest⟩

/-- Where a chain splits. -/
def cut (links : List Link) : Option Cut :=
  match cutLast (fun link => isLowest links link && groupsLeft link.op) links with
  | some place => some place
  | none => cutFirst (isLowest links) links

theorem isLowest_split {before after : List Link} {link : Link} :
    isLowest (before ++ link :: after) link = true ↔
      ∀ other ∈ before ++ after, level link.op ≤ level other.op := by
  simp only [isLowest_iff, List.forall_mem_append, List.forall_mem_cons, Nat.le_refl, true_and]

/-- The place that is found is one at which the chain splits. -/
theorem splitsAt_of_cut {links before after : List Link} {link : Link}
    (h : cut links = some ⟨before, link, after⟩) :
    links = before ++ link :: after ∧ SplitsAt before link.op after := by
  rw [cut] at h
  split at h
  · rename_i place hplace
    cases h
    obtain ⟨rfl, hlink, hafter⟩ := cutLast_eq_some_iff.mp hplace
    obtain ⟨hlowest, hleft⟩ := (Bool.and_eq_true _ _).mp hlink
    refine ⟨rfl, isLowest_split.mp hlowest, ?_, ?_, ?_⟩
    · intro _ other hother hlevel
      have hnot := hafter other hother
      rwa [isLowest_of_level_eq hlowest hlevel, Bool.true_and] at hnot
    · exact fun hright => absurd hleft (by simp [hright])
    · exact fun hright => absurd hleft (by simp [hright])
  · rename_i hnone
    rw [cutLast_eq_none_iff] at hnone
    obtain ⟨rfl, hlowest, hbefore⟩ := cutFirst_eq_some_iff.mp h
    have hright : ∀ other ∈ before ++ link :: after, level other.op = level link.op →
        groupsLeft other.op = false := by
      intro other hother hlevel
      have hnot := hnone other hother
      rwa [isLowest_of_level_eq hlowest hlevel, Bool.true_and] at hnot
    rw [List.forall_mem_append, List.forall_mem_cons] at hright
    obtain ⟨hrightBefore, hrightLink, hrightAfter⟩ := hright
    refine ⟨rfl, isLowest_split.mp hlowest, ?_, ?_, ?_⟩
    · exact fun hleft => absurd (hrightLink rfl) (by simp [hleft])
    · exact fun _ => List.forall_mem_append.mpr ⟨hrightBefore, hrightAfter⟩
    · intro _ other hother hlevel
      exact absurd (isLowest_of_level_eq hlowest hlevel) (by simp [hbefore other hother])

/-- A chain splits at one place only. -/
theorem cut_of_splitsAt {before after : List Link} {link : Link}
    (h : SplitsAt before link.op after) :
    cut (before ++ link :: after) = some ⟨before, link, after⟩ := by
  have hlowest : isLowest (before ++ link :: after) link = true := isLowest_split.mpr h.lowest
  have hmem : link ∈ before ++ link :: after := by simp
  -- All lowest links have the level of `link`, which is what the rule speaks about.
  rw [cut]
  cases hgroups : groupsLeft link.op with
  | true =>
    have hlast : cutLast (fun link' => isLowest (before ++ link :: after) link'
        && groupsLeft link'.op) (before ++ link :: after) = some ⟨before, link, after⟩ := by
      refine cutLast_eq_some_iff.mpr ⟨rfl, by rw [hlowest, hgroups]; rfl, ?_⟩
      intro other hother
      cases hother' : isLowest (before ++ link :: after) other with
      | false => rfl
      | true =>
        have hlevel := level_eq_of_isLowest hlowest hother' hmem (by simp [hother])
        rw [Bool.true_and]
        exact h.last hgroups other hother hlevel
    rw [hlast]
  | false =>
    have hnone : cutLast (fun link' => isLowest (before ++ link :: after) link'
        && groupsLeft link'.op) (before ++ link :: after) = none := by
      refine cutLast_eq_none_iff.mpr fun other hother => ?_
      cases hother' : isLowest (before ++ link :: after) other with
      | false => rfl
      | true =>
        have hlevel := level_eq_of_isLowest hlowest hother' hmem hother
        rw [Bool.true_and]
        rcases List.mem_append.mp hother with hbefore | hafter
        · exact h.mixed hgroups other (List.mem_append_left _ hbefore) hlevel
        · rcases List.mem_cons.mp hafter with rfl | hafter
          · exact hgroups
          · exact h.mixed hgroups other (List.mem_append_right _ hafter) hlevel
    rw [hnone]
    refine cutFirst_eq_some_iff.mpr ⟨rfl, hlowest, fun other hother => ?_⟩
    cases hother' : isLowest (before ++ link :: after) other with
    | false => rfl
    | true =>
      have hlevel := level_eq_of_isLowest hlowest hother' hmem (by simp [hother])
      exact absurd hlevel (h.first hgroups other hother)

/-- Every chain with an operator splits somewhere. -/
theorem exists_splitsAt {links : List Link} (h : links ≠ []) :
    ∃ before link after, links = before ++ link :: after ∧ SplitsAt before link.op after := by
  obtain ⟨lowest, hmem, hlowest⟩ := exists_isLowest h
  cases hcut : cut links with
  | some place =>
    obtain ⟨before, link, after⟩ := place
    exact ⟨before, link, after, splitsAt_of_cut hcut⟩
  | none =>
    rw [cut] at hcut
    split at hcut
    · cases hcut
    · exact absurd (cutFirst_eq_none_iff.mp hcut lowest hmem) (by simp [hlowest])

/-! ## The tree of a chain -/

/-- The tree of a chain that starts with the operand `first`. -/
def arrange (first : Tree) (links : List Link) : Tree :=
  match _h : cut links with
  | none => first
  | some ⟨before, link, after⟩ =>
    .binary link.op (arrange first before) (arrange link.operand after)
termination_by links.length
decreasing_by
  all_goals
    rw [(splitsAt_of_cut _h).1, List.length_append, List.length_cons]
    omega

theorem arrange_nil (first : Tree) : arrange first [] = first := by
  rw [arrange]
  rfl

/-- A chain splits by the rule, and so do both of its sides. -/
theorem arrange_of_splitsAt (first : Tree) (link : Link) {before after : List Link}
    (h : SplitsAt before link.op after) :
    arrange first (before ++ link :: after) =
      .binary link.op (arrange first before) (arrange link.operand after) := by
  rw [arrange]
  split
  · rename_i hcut
    rw [cut_of_splitsAt h] at hcut
    cases hcut
  · rename_i before' link' after' hcut
    rw [cut_of_splitsAt h] at hcut
    cases hcut
    rfl

theorem arrange_singleton (first : Tree) (link : Link) :
    arrange first [link] = .binary link.op first link.operand := by
  have hsplit : SplitsAt [] link.op [] := by constructor <;> simp
  rw [← List.nil_append [link], arrange_of_splitsAt first link hsplit, arrange_nil, arrange_nil]

/-! ## Redundant brackets -/

/-- Pairs of brackets are put around parts of a chain that the rule keeps
together: around the whole, or around such a part of one of the sides of the
split.  Every part becomes one operand. -/
inductive Brackets : Tree → List Link → Tree → List Link → Prop where
  | refl (first : Tree) (links : List Link) : Brackets first links first links
  | trans {first first' first'' : Tree} {links links' links'' : List Link}
      (h : Brackets first links first' links') (h' : Brackets first' links' first'' links'') :
      Brackets first links first'' links''
  | whole (first : Tree) (links : List Link) : Brackets first links (arrange first links) []
  | before {first first' : Tree} {before before' after : List Link} {link : Link}
      (hsplit : SplitsAt before link.op after) (h : Brackets first before first' before') :
      Brackets first (before ++ link :: after) first' (before' ++ link :: after)
  | after {first operand' : Tree} {before after after' : List Link} {link : Link}
      (hsplit : SplitsAt before link.op after)
      (h : Brackets link.operand after operand' after') :
      Brackets first (before ++ link :: after) first (before ++ ⟨link.op, operand'⟩ :: after')

/-- Brackets only take operators out of a chain. -/
theorem Brackets.subset {first first' : Tree} {links links' : List Link}
    (h : Brackets first links first' links') :
    ∀ link' ∈ links', ∃ link ∈ links, link.op = link'.op := by
  induction h with
  | refl first links => exact fun link hmem => ⟨link, hmem, rfl⟩
  | trans _ _ ih ih' =>
    intro link'' hmem
    obtain ⟨link', hlink', heq'⟩ := ih' link'' hmem
    obtain ⟨link, hlink, heq⟩ := ih link' hlink'
    exact ⟨link, hlink, heq.trans heq'⟩
  | whole first links => intro link' hmem; cases hmem
  | before _ _ ih =>
    refine List.forall_mem_append.mpr ⟨fun link' hmem => ?_, fun link' hmem => ?_⟩
    · obtain ⟨link, hlink, heq⟩ := ih link' hmem
      exact ⟨link, List.mem_append_left _ hlink, heq⟩
    · exact ⟨link', List.mem_append_right _ hmem, rfl⟩
  | @after _ _ before after after' link _ _ ih =>
    refine List.forall_mem_append.mpr ⟨fun link' hmem => ?_, List.forall_mem_cons.mpr ⟨?_, ?_⟩⟩
    · exact ⟨link', List.mem_append_left _ hmem, rfl⟩
    · exact ⟨link, by simp, rfl⟩
    · intro link' hmem
      obtain ⟨other, hother, heq⟩ := ih link' hmem
      exact ⟨other, by simp [hother], heq⟩

/-- Redundant brackets do not change the tree. -/
theorem arrange_of_brackets {first first' : Tree} {links links' : List Link}
    (h : Brackets first links first' links') : arrange first' links' = arrange first links := by
  induction h with
  | refl first links => rfl
  | trans _ _ ih ih' => rw [ih', ih]
  | whole first links => exact arrange_nil _
  | @before first first' before before' after link hsplit h ih =>
    have hsplit' : SplitsAt before' link.op after :=
      hsplit.of_subset h.subset fun other hmem => ⟨other, hmem, rfl⟩
    rw [arrange_of_splitsAt first' link hsplit', arrange_of_splitsAt first link hsplit, ih]
  | @after first operand' before after after' link hsplit h ih =>
    have hsplit' : SplitsAt before link.op after' :=
      hsplit.of_subset (fun other hmem => ⟨other, hmem, rfl⟩) h.subset
    rw [arrange_of_splitsAt first link hsplit,
      arrange_of_splitsAt first ⟨link.op, operand'⟩ hsplit', ih]

/-! ## Tokens -/

/-- What a part of a formula reads as. -/
inductive Phrase where
  | operand (tree : Tree)
  | chain (first : Tree) (links : List Link)
  | arguments (trees : List Tree)

/-- The formulas and their parts.  Tokens may stand anywhere in the text. -/
inductive Reads (scope : Scope) : List Token → Phrase → Prop where
  | integer (value : Int64) (range : Text.Range) :
      Reads scope [⟨.integer value, range⟩] (.operand (.integer value))
  | decimal (value : Decimal) (range : Text.Range) :
      Reads scope [⟨.decimal value, range⟩] (.operand (.decimal value))
  /-- A name of a constant stands for its value. -/
  | constantName {name : String} (range : Text.Range) {entry : Entry Decimal}
      (hfunction : scope.functions.find? name = none)
      (hconstant : scope.constants.find? name = some entry) :
      Reads scope [⟨.identifier name, range⟩] (.operand (.decimal entry.content))
  /-- Any other name is a variable. -/
  | variableName {name : String} (range : Text.Range)
      (hfunction : scope.functions.find? name = none)
      (hconstant : scope.constants.find? name = none) :
      Reads scope [⟨.identifier name, range⟩]
        (.operand (.var (Text.canonical scope.caseSensitive name)))
  /-- A minus applies to the operand after it alone. -/
  | negate (range : Text.Range) {tokens : List Token} {tree : Tree}
      (h : Reads scope tokens (.operand tree)) :
      Reads scope (⟨.operator .negate, range⟩ :: tokens) (.operand (.negate tree))
  | group (opening closing : Text.Range) {tokens : List Token} {first : Tree}
      {links : List Link} (h : Reads scope tokens (.chain first links)) :
      Reads scope (⟨.leftBracket, opening⟩ :: (tokens ++ [⟨.rightBracket, closing⟩]))
        (.operand (arrange first links))
  | call {name : String} (range opening closing : Text.Range) {entry : Entry Function}
      {tokens : List Token} {arguments : List Tree}
      (hfunction : scope.functions.find? name = some entry)
      (harity : entry.content.arity.Admits arguments.length)
      (h : Reads scope tokens (.arguments arguments)) :
      Reads scope (⟨.identifier name, range⟩ :: ⟨.leftBracket, opening⟩
          :: (tokens ++ [⟨.rightBracket, closing⟩]))
        (.operand (.call entry.name entry.content.isIdempotent arguments))
  /-- A chain without operators. -/
  | single {tokens : List Token} {tree : Tree} (h : Reads scope tokens (.operand tree)) :
      Reads scope tokens (.chain tree [])
  | longer (op : BinaryOp) (range : Text.Range) {tokens tokens' : List Token}
      {first operand : Tree} {links : List Link} (h : Reads scope tokens (.chain first links))
      (h' : Reads scope tokens' (.operand operand)) :
      Reads scope (tokens ++ ⟨.operator (.binary op), range⟩ :: tokens')
        (.chain first (links ++ [⟨op, operand⟩]))
  | noArguments : Reads scope [] (.arguments [])
  | argument {tokens : List Token} {first : Tree} {links : List Link}
      (h : Reads scope tokens (.chain first links)) :
      Reads scope tokens (.arguments [arrange first links])
  | moreArguments (range : Text.Range) {tokens tokens' : List Token} {arguments : List Tree}
      {first : Tree} {links : List Link} (hsome : arguments ≠ [])
      (h : Reads scope tokens (.arguments arguments))
      (h' : Reads scope tokens' (.chain first links)) :
      Reads scope (tokens ++ ⟨.separator, range⟩ :: tokens')
        (.arguments (arguments ++ [arrange first links]))

/-- Only an empty list of arguments has no tokens. -/
theorem Reads.ne_nil {scope : Scope} {tokens : List Token} {phrase : Phrase}
    (h : Reads scope tokens phrase) : phrase ≠ .arguments [] → tokens ≠ [] := by
  induction h with
  | integer | decimal | constantName | variableName | negate | group | call =>
    exact fun _ => List.cons_ne_nil _ _
  | single _ ih => exact fun _ => ih (by simp)
  | argument _ ih => exact fun _ => ih (by simp)
  | longer => simp
  | moreArguments => simp
  | noArguments => exact fun h => absurd rfl h

end Grammar

end FormulaEngine
