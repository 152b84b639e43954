import FormulaEngine.Proofs.Folding.Attributes
import FormulaEngine.Proofs.Tree.Dependence

/-!
# Folding runs idempotent functions only

`SameIfIdempotent` relates two tables of functions in which the functions that
are not idempotent may do different things, as `random` does for two draws.  A
formula is assembled to the same tree with both of them.  A pass runs functions
only below nodes that it folds, and all functions there are registered as
idempotent (`isIdempotent_of_mem_foldedNames`).  So the pass gives the same tree
or the same error with both tables.
-/

namespace FormulaEngine

/-! ## Functions that differ in their draws -/

/-- Two entries that agree on everything but what a function does that is not
idempotent. -/
structure Entry.SameIfIdempotent (entry other : Entry Function) : Prop
    extends entry.SameSignature other where
  isOverwritable : other.isOverwritable = entry.isOverwritable
  run : entry.content.isIdempotent = true → other.content.run = entry.content.run

/-- Two tables with the same names, signatures, flags and idempotent
functions. -/
def SameIfIdempotent (functions other : Functions) : Prop :=
  ∀ name, Option.Rel Entry.SameIfIdempotent (functions.find? name) (other.find? name)

theorem Entry.SameIfIdempotent.refl (entry : Entry Function) : entry.SameIfIdempotent entry :=
  ⟨⟨rfl, rfl, rfl⟩, rfl, fun _ => rfl⟩

theorem Entry.SameIfIdempotent.eq {entry other : Entry Function}
    (h : entry.SameIfIdempotent other) (hidempotent : entry.content.isIdempotent = true) :
    other = entry := by
  obtain ⟨⟨hname, harity, hflag⟩, hoverwritable, hrun⟩ := h
  have hsame := hrun hidempotent
  obtain ⟨name, ⟨arity, isIdempotent, run⟩, isOverwritable⟩ := entry
  obtain ⟨name', ⟨arity', isIdempotent', run'⟩, isOverwritable'⟩ := other
  dsimp only at hname harity hflag hoverwritable hsame
  rw [hname, harity, hflag, hoverwritable, hsame]

namespace SameIfIdempotent

variable {functions other : Functions}

theorem sameSignatures (h : SameIfIdempotent functions other) :
    SameSignatures functions other := by
  intro name
  have hrel := h name
  generalize functions.find? name = entry, other.find? name = entry' at hrel ⊢
  cases hrel with
  | none => exact .none
  | some hsame => exact .some hsame.toSameSignature

/-- Idempotent functions are the same in both tables. -/
theorem find?_eq (h : SameIfIdempotent functions other) {name : String} {entry : Entry Function}
    (hfunction : functions.find? name = some entry)
    (hidempotent : entry.content.isIdempotent = true) :
    other.find? name = functions.find? name := by
  have hrel := h name
  rw [hfunction] at hrel ⊢
  generalize other.find? name = entry' at hrel ⊢
  cases hrel with
  | some hsame => rw [hsame.eq hidempotent]

end SameIfIdempotent

/-- Tables whose entries agree one by one. -/
theorem sameIfIdempotent_of_entries {functions other : Functions}
    (hcase : other.caseSensitive = functions.caseSensitive)
    (h : List.Forall₂ Entry.SameIfIdempotent functions.entries other.entries) :
    SameIfIdempotent functions other := by
  intro name
  rw [Registry.find?_eq, Registry.find?_eq, Registry.entry?, Registry.entry?, hcase]
  split
  · exact .none
  · generalize functions.entries = entries, other.entries = entries' at h
    induction h with
    | nil => exact .none
    | cons hsame _ ih =>
      rw [List.find?_cons, List.find?_cons, hsame.name]
      split
      · exact .some hsame
      · exact ih

/-- The built-in functions for two draws of `random`. -/
theorem sameIfIdempotent_functionRegistry (caseSensitive : Bool) (draw draw' : Decimal) :
    SameIfIdempotent (Builtin.functionRegistry caseSensitive draw)
      (Builtin.functionRegistry caseSensitive draw') := by
  refine sameIfIdempotent_of_entries rfl ?_
  rw [Builtin.functionRegistry, Builtin.functionRegistry, Registry.ofLocked, Registry.ofLocked]
  dsimp only
  rw [List.forall₂_map_left_iff, List.forall₂_map_right_iff]
  refine List.rel_append (List.forall₂_same.mpr fun function _ => .refl _) ?_
  exact .cons ⟨⟨rfl, rfl, rfl⟩, rfl, nofun⟩ .nil

/-! ## Folded calls -/

namespace Tree

/-- The functions that a pass runs are registered as idempotent. -/
theorem isIdempotent_of_mem_foldedNames {functions : Functions} {tree : Tree}
    (hexact : tree.HasExactAttributes functions) {name : String} (h : name ∈ tree.foldedNames) :
    ∃ entry, functions.find? name = some entry ∧ entry.content.isIdempotent = true := by
  obtain ⟨node, hvisited, hfold, hname⟩ := mem_foldedNames.mp h
  obtain ⟨idempotent, arguments, hcall⟩ := mem_functionNames_iff.mp hname
  obtain ⟨_, _, hidempotent⟩ := isFoldable_eq_true_iff.mp hfold
  have hmem := subtrees_subset (visited_subset_subtrees tree hvisited) hcall
  obtain ⟨entry, hfunction, hsame⟩ := givenAttributes?_call_iff.mp (hexact _ hmem)
  refine ⟨entry, hfunction, ?_⟩
  -- The call is marked idempotent, so its function is registered so.
  have hmarked := isIdempotent_of_mem_subtrees hidempotent hcall
  rw [isIdempotent, ← hsame, Bool.and_eq_true] at hmarked
  exact hmarked.1

/-- Two tables that differ only in what functions do that are not idempotent
assemble a formula to the same tree, and a pass gives the same tree or the same
error with both. -/
theorem simplify_ignores_draws {functions other : Functions}
    (h : SameIfIdempotent functions other) (constants : Constants) (caseSensitive : Bool)
    {tokens : List Token} {tree : Tree}
    (hassemble : ofTokens ⟨functions, constants, caseSensitive⟩ tokens = .ok tree) :
    ofTokens ⟨other, constants, caseSensitive⟩ tokens = .ok tree ∧
      simplify other tree = simplify functions tree := by
  have hexact := hasExactAttributes_of_ofTokens hassemble
  refine ⟨by rw [ofTokens_congr h.sameSignatures, hassemble], simplify_congr fun name hname => ?_⟩
  obtain ⟨entry, hfunction, hidempotent⟩ := isIdempotent_of_mem_foldedNames hexact hname
  exact h.find?_eq hfunction hidempotent

/-- A call of `random` stays and the calls beside it are folded, for a draw of
zero and for a draw of one. -/
theorem simplify_ignores_draws_of_random :
    ∃ tokens tree,
      tokenize {} "random() + max(2, abs(0 - 3))" = .ok tokens ∧
        ofTokens ⟨Builtin.functionRegistry false .zero, .empty false, false⟩ tokens = .ok tree ∧
        ofTokens ⟨Builtin.functionRegistry false .one, .empty false, false⟩ tokens = .ok tree ∧
        tree.simplify (Builtin.functionRegistry false .zero) =
          .ok (.binary .add (.call "random" false []) (.decimal (.ofInt64 3))) ∧
        tree.simplify (Builtin.functionRegistry false .one) =
          .ok (.binary .add (.call "random" false []) (.decimal (.ofInt64 3))) := by
  have hread : Tree.read {} ⟨Builtin.functionRegistry false .zero, .empty false, false⟩
      "random() + max(2, abs(0 - 3))" =
      .ok (.binary .add (.call "random" false [])
        (.call "max" true [.integer 2,
          .call "abs" true [.binary .subtract (.integer 0) (.integer 3)]])) := by
    with_unfolding_all rfl
  obtain ⟨tokens, htokens, hassemble⟩ := exists_ofTokens_of_read hread
  obtain ⟨hagain, hsame⟩ := simplify_ignores_draws
    (sameIfIdempotent_functionRegistry false .zero .one) (.empty false) false hassemble
  exact ⟨tokens, _, htokens, hassemble, hagain, by rfl, hsame.trans (by rfl)⟩

end Tree

end FormulaEngine
