import FormulaEngine.Proofs.Engine.Binding
import FormulaEngine.Proofs.Evaluation.Lookup

/-!
# Variables with folded names

A formula folds the names of its variables in every call.  Variables whose
names are distinct and in canonical form already keep their values under it
(`find?_fold_of_canonical`).  Two operations make such variables of folded
ones: the constants of the engine are added to them (`Engine.withConstants`),
or some of them are overridden (`Variables.overriddenBy`).
-/

namespace FormulaEngine

open Text

namespace Variables

/-! ## Names and values -/

theorem isSome_find?_iff {vars : Variables} {name : String} :
    (vars.find? name).isSome = true ↔ name ∈ vars.names := by
  rw [find?, names]
  induction vars.bindings with
  | nil => simp
  | cons binding bindings ih =>
    rw [List.lookup_cons, List.map_cons, List.mem_cons]
    by_cases hname : name = binding.1
    · simp [hname]
    · simp [beq_false_of_ne hname, hname, ih]

theorem mem_names_ofList {bindings : List (String × Decimal)} {name : String}
    (h : name ∈ bindings.map Prod.fst) : name ∈ (ofList bindings).names := by
  induction bindings using List.reverseRecOn with
  | nil => cases h
  | append_singleton bindings binding ih =>
    rw [List.map_append, List.mem_append, List.map_singleton, List.mem_singleton] at h
    rw [ofList_append_singleton]
    refine mem_map_fst_insertBinding.mpr ?_
    exact h.symm.imp_right ih

/-- Folding keeps a name that is in its canonical form. -/
theorem isSome_find?_fold {vars : Variables} {caseSensitive : Bool} {name : String}
    (hname : canonical caseSensitive name = name) (h : (vars.find? name).isSome = true) :
    ((vars.fold caseSensitive).find? name).isSome = true := by
  rw [isSome_find?_iff] at h ⊢
  cases caseSensitive with
  | true => exact h
  | false =>
    refine mem_names_ofList ?_
    rw [List.map_map, List.mem_map]
    obtain ⟨binding, hmem, hbinding⟩ := List.mem_map.mp h
    refine ⟨binding, hmem, ?_⟩
    show foldCase binding.1 = name
    rw [hbinding]
    exact hname

/-! ## Overriding -/

/-- The variables with others put over those of the same name. -/
def overriddenBy (vars other : Variables) : Variables :=
  other.bindings.foldl (fun all (name, value) => all.insert name value) vars

theorem overriddenBy_append_singleton (vars : Variables) (bindings : List (String × Decimal))
    (binding : String × Decimal) :
    vars.overriddenBy ⟨bindings ++ [binding]⟩ =
      (vars.overriddenBy ⟨bindings⟩).insert binding.1 binding.2 :=
  List.foldl_append

/-- The others come first. -/
theorem find?_overriddenBy (vars : Variables) {other : Variables} (h : other.names.Nodup)
    (name : String) :
    (vars.overriddenBy other).find? name = (other.find? name).or (vars.find? name) := by
  obtain ⟨bindings⟩ := other
  induction bindings using List.reverseRecOn with
  | nil => rfl
  | append_singleton bindings binding ih =>
    rw [names, List.map_append, List.map_singleton] at h
    have hnodup := h.of_append_left
    have hnew : binding.1 ∉ bindings.map Prod.fst := fun hmem =>
      List.disjoint_of_nodup_append h hmem (List.mem_singleton.mpr rfl)
    have hlookup : find? ⟨bindings ++ [binding]⟩ name =
        (find? ⟨bindings⟩ name).or ([binding].lookup name) := List.lookup_append
    rw [overriddenBy_append_singleton, find?_insert, ih hnodup, hlookup]
    by_cases hname : name = binding.1
    · have hnone : find? ⟨bindings⟩ name = none := by
        rw [← Option.not_isSome_iff_eq_none, hname]
        exact fun hsome => hnew (isSome_find?_iff.mp hsome)
      rw [if_pos hname, hnone, List.lookup_cons, hname, beq_self_eq_true]
      rfl
    · rw [if_neg hname, List.lookup_cons, beq_false_of_ne hname, List.lookup_nil, Option.or_none]

theorem names_overriddenBy {vars : Variables} (h : vars.names.Nodup) (other : Variables) :
    (vars.overriddenBy other).names.Nodup := by
  obtain ⟨bindings⟩ := other
  induction bindings using List.reverseRecOn with
  | nil => exact h
  | append_singleton bindings binding ih =>
    rw [overriddenBy_append_singleton]
    exact nodup_insertBinding _ _ ih

theorem mem_names_overriddenBy {vars other : Variables} {name : String}
    (h : name ∈ (vars.overriddenBy other).names) : name ∈ vars.names ∨ name ∈ other.names := by
  obtain ⟨bindings⟩ := other
  induction bindings using List.reverseRecOn with
  | nil => exact .inl h
  | append_singleton bindings binding ih =>
    rw [overriddenBy_append_singleton] at h
    rw [names, names, List.map_append, List.mem_append, List.map_singleton, List.mem_singleton]
    rcases mem_map_fst_insertBinding.mp h with rfl | hmem
    · exact .inr (.inr rfl)
    · exact (ih hmem).imp_right .inl

/-- Distinct names have the values of their bindings. -/
theorem find?_ofList {bindings : List (String × Decimal)} (h : (bindings.map Prod.fst).Nodup)
    (name : String) : (ofList bindings).find? name = bindings.lookup name := by
  have hnames : (Variables.mk bindings).names.Nodup := h
  exact (find?_overriddenBy empty hnames name).trans Option.or_none

/-- Folding keeps the values of distinct names in canonical form. -/
theorem find?_fold_of_canonical {vars : Variables} {caseSensitive : Bool}
    (hnames : ∀ name ∈ vars.names, canonical caseSensitive name = name)
    (hnodup : caseSensitive = false → vars.names.Nodup) (name : String) :
    (vars.fold caseSensitive).find? name = vars.find? name := by
  cases caseSensitive with
  | true => rfl
  | false =>
    have hsame : (vars.bindings.map fun binding => (foldCase binding.1, binding.2)) =
        vars.bindings := by
      refine (List.map_congr_left fun binding hmem => ?_).trans (List.map_id _)
      exact Prod.ext (hnames binding.1 (List.mem_map_of_mem hmem)) rfl
    rw [fold, if_neg Bool.false_ne_true]
    refine (congrArg (fun bindings => (ofList bindings).find? name) hsame).trans ?_
    exact find?_ofList (hnodup rfl) name

end Variables

/-! ## Adding constants -/

theorem Variables.names_insertNew {vars : Variables} (h : vars.names.Nodup) (name : String)
    (value : Decimal) : (vars.insertNew name value).names.Nodup := by
  rw [insertNew]
  split
  · exact h
  · exact nodup_insertBinding _ _ h

namespace Engine

theorem names_withConstants (constants : Constants) {vars : Variables} (h : vars.names.Nodup) :
    (withConstants constants vars).names.Nodup := by
  rw [withConstants]
  generalize constants.entries = entries
  induction entries generalizing vars with
  | nil => exact h
  | cons entry entries ih =>
    exact ih (Variables.names_insertNew h entry.name entry.content)

theorem mem_names_withConstants {constants : Constants} {vars : Variables} {name : String}
    (h : name ∈ (withConstants constants vars).names) :
    name ∈ vars.names ∨ ∃ entry, constants.entry? name = some entry := by
  rw [← Variables.isSome_find?_iff, find?_withConstants, Option.isSome_or, Bool.or_eq_true,
    Option.isSome_map, Variables.isSome_find?_iff] at h
  exact h.imp_right Option.isSome_iff_exists.mp

end Engine

end FormulaEngine
