import FormulaEngine.Proofs.Evaluation.FoldedNames

/-!
# Which variables are accepted

A calculation refuses its variables for one of three reasons: two names have
the same canonical form, a name is that of a locked constant, or it is that of
a function.  The order of the variables decides which reason is given, but not
whether there is one.

* `acceptVariables_eq_ok_iff`: the variables that pass are completed by the
  constants of the engine, and by nothing else.
* `find?_fold_accepted`: a formula finds the folded variables first, and then
  the constants.
-/

namespace FormulaEngine

open Text

namespace Variables

theorem firstRepeated?_eq_none {seen names : List String} (hnodup : names.Nodup)
    (hnew : ∀ name ∈ names, name ∉ seen) : firstRepeated? seen names = none := by
  induction names generalizing seen with
  | nil => rfl
  | cons name names ih =>
    obtain ⟨hnot, hrest⟩ := List.nodup_cons.mp hnodup
    have hfresh : ¬seen.contains name = true := by
      rw [List.contains_iff_mem]
      exact hnew name List.mem_cons_self
    rw [firstRepeated?, if_neg hfresh]
    refine ih hrest fun other hother => ?_
    rw [List.mem_cons, not_or]
    exact ⟨fun hsame => hnot (hsame ▸ hother), hnew other (List.mem_cons_of_mem _ hother)⟩

/-- Variables clash unless their canonical names are distinct. -/
theorem clash?_eq_none_iff {vars : Variables} {caseSensitive : Bool} :
    vars.clash? caseSensitive = none ↔ (vars.names.map (canonical caseSensitive)).Nodup :=
  ⟨fun h => (nodup_of_firstRepeated?_eq_none h).1,
    fun h => firstRepeated?_eq_none h fun _ _ => List.not_mem_nil⟩

theorem mem_names_fold {vars : Variables} {caseSensitive : Bool} {name : String} :
    name ∈ (vars.fold caseSensitive).names ↔
      ∃ original ∈ vars.names, canonical caseSensitive original = name := by
  refine ⟨exists_of_mem_names_fold, ?_⟩
  rintro ⟨original, horiginal, rfl⟩
  cases caseSensitive with
  | true => exact horiginal
  | false =>
    refine mem_names_ofList ?_
    obtain ⟨binding, hmem, rfl⟩ := List.mem_map.mp horiginal
    rw [List.map_map]
    exact List.mem_map_of_mem hmem

/-- A binding under its canonical name. -/
def foldBinding (caseSensitive : Bool) (binding : String × Decimal) : String × Decimal :=
  (canonical caseSensitive binding.1, binding.2)

theorem map_fst_foldBinding (caseSensitive : Bool) (vars : Variables) :
    (vars.bindings.map (foldBinding caseSensitive)).map Prod.fst =
      vars.names.map (canonical caseSensitive) := by
  rw [names, List.map_map, List.map_map]
  rfl

/-- Folding renames the bindings. -/
theorem find?_fold {vars : Variables} {caseSensitive : Bool}
    (h : (vars.names.map (canonical caseSensitive)).Nodup) (name : String) :
    (vars.fold caseSensitive).find? name =
      (vars.bindings.map (foldBinding caseSensitive)).lookup name := by
  cases caseSensitive with
  | true =>
    have hsame : vars.bindings.map (foldBinding true) = vars.bindings := List.map_id _
    rw [hsame]
    rfl
  | false => exact find?_ofList (map_fst_foldBinding false vars ▸ h) name

end Variables

namespace Engine

variable {engine : Engine} {vars accepted : Variables}

theorem checkNames_eq_ok_iff {names : List String} :
    engine.checkNames names = .ok () ↔ ∀ name ∈ names, engine.checkName name = .ok () := by
  induction names with
  | nil => simp [checkNames]
  | cons name names ih =>
    rw [checkNames, List.forall_mem_cons]
    cases hcheck : engine.checkName name with
    | error e => simp
    | ok _ => simp [ih]

/-- Variables pass if their canonical names are distinct and each of them is
free. -/
theorem acceptVariables_eq_ok_iff :
    engine.acceptVariables vars = .ok accepted ↔
      (vars.names.map (canonical engine.options.caseSensitive)).Nodup ∧
        (∀ name ∈ (vars.fold engine.options.caseSensitive).names,
          engine.checkName name = .ok ()) ∧
        accepted = withConstants engine.constants (vars.fold engine.options.caseSensitive) := by
  rw [acceptVariables, ← Variables.clash?_eq_none_iff, ← checkNames_eq_ok_iff]
  cases vars.clash? engine.options.caseSensitive with
  | some name => simp
  | none =>
    dsimp only
    cases engine.checkNames (vars.fold engine.options.caseSensitive).names with
    | error e => simp
    | ok _ => simp [eq_comm]

theorem eq_withConstants_of_acceptVariables (h : engine.acceptVariables vars = .ok accepted) :
    (vars.fold engine.options.caseSensitive).names.Nodup ∧
      accepted = withConstants engine.constants (vars.fold engine.options.caseSensitive) := by
  obtain ⟨hnodup, _, haccepted⟩ := acceptVariables_eq_ok_iff.mp h
  exact ⟨Variables.nodup_names_fold (Variables.clash?_eq_none_iff.mpr hnodup), haccepted⟩

/-- A formula finds the folded variables of a calculation first, and then the
constants. -/
theorem find?_fold_accepted (htidy : engine.constants.IsTidy)
    (hpolicy : engine.constants.caseSensitive = engine.options.caseSensitive)
    (haccept : engine.acceptVariables vars = .ok accepted) (name : String) :
    (accepted.fold engine.options.caseSensitive).find? name =
      ((vars.fold engine.options.caseSensitive).find? name).or
        ((engine.constants.entry? name).map Entry.content) := by
  obtain ⟨hnodup, rfl⟩ := eq_withConstants_of_acceptVariables haccept
  have hcanonical : ∀ other ∈ (withConstants engine.constants
      (vars.fold engine.options.caseSensitive)).names,
      canonical engine.options.caseSensitive other = other := by
    intro other hmem
    rcases mem_names_withConstants hmem with hvar | ⟨entry, hentry⟩
    · exact Variables.canonical_of_mem_names_fold hvar
    · have hcanonical := (htidy entry (List.mem_of_find?_eq_some hentry)).2
      have hsame : entry.name = other := Registry.name_of_entry? hentry
      rwa [hsame, hpolicy] at hcanonical
  rw [Variables.find?_fold_of_canonical hcanonical fun _ => names_withConstants _ hnodup,
    find?_withConstants]

end Engine

end FormulaEngine
