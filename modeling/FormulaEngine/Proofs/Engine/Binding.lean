import FormulaEngine.Engine
import FormulaEngine.Proofs.Registry.History
import Mathlib.Data.List.Induction
import Mathlib.Data.List.Nodup

/-!
# Constants bound to a formula

`Engine.bindConstants` makes a registry of the constants of a request.  It
accepts them only if no two names have the same canonical form.  Then the
names of the folded constants are distinct, and the registry holds exactly
these constants, in their order (`bindConstants_eq_ok`).
-/

namespace FormulaEngine

namespace Variables

/-! ## Names -/

theorem mem_map_fst_insertBinding {name other : String} {value : Decimal}
    {bindings : List (String × Decimal)} :
    other ∈ (insertBinding name value bindings).map Prod.fst ↔
      other = name ∨ other ∈ bindings.map Prod.fst := by
  induction bindings with
  | nil => simp [insertBinding]
  | cons binding bindings ih =>
    obtain ⟨key, old⟩ := binding
    rw [insertBinding]
    split
    · rename_i hkey
      rw [beq_iff_eq] at hkey
      simp [hkey]
    · rw [List.map_cons, List.map_cons, List.mem_cons, List.mem_cons, ih]
      tauto

theorem nodup_insertBinding (name : String) (value : Decimal)
    {bindings : List (String × Decimal)} (h : (bindings.map Prod.fst).Nodup) :
    ((insertBinding name value bindings).map Prod.fst).Nodup := by
  induction bindings with
  | nil => simp [insertBinding]
  | cons binding bindings ih =>
    obtain ⟨key, old⟩ := binding
    rw [List.map_cons, List.nodup_cons] at h
    rw [insertBinding]
    split
    · rename_i hkey
      rw [beq_iff_eq] at hkey
      exact List.nodup_cons.mpr ⟨hkey ▸ h.1, h.2⟩
    · rename_i hkey
      rw [beq_iff_eq] at hkey
      refine List.nodup_cons.mpr ⟨?_, ih h.2⟩
      rw [mem_map_fst_insertBinding]
      rintro (hname | hmem)
      · exact hkey hname
      · exact h.1 hmem

theorem ofList_append_singleton (bindings : List (String × Decimal)) (binding : String × Decimal) :
    ofList (bindings ++ [binding]) = (ofList bindings).insert binding.1 binding.2 := by
  rw [ofList, List.foldl_append]
  rfl

/-- The variables of a list have distinct names, all from the list. -/
theorem names_ofList (bindings : List (String × Decimal)) :
    (ofList bindings).names.Nodup ∧
      ∀ name ∈ (ofList bindings).names, name ∈ bindings.map Prod.fst := by
  induction bindings using List.reverseRecOn with
  | nil => exact ⟨List.nodup_nil, nofun⟩
  | append_singleton bindings binding ih =>
    rw [ofList_append_singleton]
    refine ⟨nodup_insertBinding _ _ ih.1, ?_⟩
    intro name hname
    rw [List.map_append, List.mem_append, List.map_singleton, List.mem_singleton]
    rcases mem_map_fst_insertBinding.mp hname with rfl | hmem
    · exact .inr rfl
    · exact .inl (ih.2 name hmem)

theorem nodup_of_firstRepeated?_eq_none {seen names : List String}
    (h : firstRepeated? seen names = none) : names.Nodup ∧ ∀ name ∈ names, name ∉ seen := by
  induction names generalizing seen with
  | nil => exact ⟨List.nodup_nil, nofun⟩
  | cons name names ih =>
    rw [firstRepeated?] at h
    split at h
    · cases h
    · rename_i hnew
      obtain ⟨hnodup, hfresh⟩ := ih h
      rw [List.contains_iff_mem] at hnew
      refine ⟨List.nodup_cons.mpr ⟨?_, hnodup⟩, ?_⟩
      · exact fun hmem => hfresh name hmem List.mem_cons_self
      · intro other hother hseen
        rcases List.mem_cons.mp hother with rfl | hmem
        · exact hnew hseen
        · exact hfresh other hmem (List.mem_cons_of_mem _ hseen)

/-- Without a clash the folded names are distinct. -/
theorem nodup_names_fold {vars : Variables} {caseSensitive : Bool}
    (h : vars.clash? caseSensitive = none) : (vars.fold caseSensitive).names.Nodup := by
  cases caseSensitive with
  | true =>
    have hnames := (nodup_of_firstRepeated?_eq_none h).1
    have hsame : vars.names.map (Text.canonical true) = vars.names := List.map_id _
    rwa [hsame] at hnames
  | false => exact (names_ofList _).1

/-- Folded names are the canonical forms of names. -/
theorem exists_of_mem_names_fold {vars : Variables} {caseSensitive : Bool} {name : String}
    (h : name ∈ (vars.fold caseSensitive).names) :
    ∃ original ∈ vars.names, Text.canonical caseSensitive original = name := by
  cases caseSensitive with
  | true => exact ⟨name, h, rfl⟩
  | false =>
    have hmem := (names_ofList _).2 name h
    rw [List.map_map, List.mem_map] at hmem
    obtain ⟨binding, hbinding, rfl⟩ := hmem
    exact ⟨binding.1, List.mem_map_of_mem hbinding, rfl⟩

/-- Folded names are in canonical form. -/
theorem canonical_of_mem_names_fold {vars : Variables} {caseSensitive : Bool} {name : String}
    (h : name ∈ (vars.fold caseSensitive).names) : Text.canonical caseSensitive name = name := by
  obtain ⟨original, _, rfl⟩ := exists_of_mem_names_fold h
  exact Text.canonical_canonical caseSensitive original

/-- A name of distinct ones has the value of its binding. -/
theorem find?_eq_some_iff_mem {vars : Variables} (h : vars.names.Nodup) {name : String}
    {value : Decimal} : vars.find? name = some value ↔ (name, value) ∈ vars.bindings := by
  obtain ⟨bindings⟩ := vars
  rw [find?]
  change (bindings.map Prod.fst).Nodup at h
  induction bindings with
  | nil => simp
  | cons binding bindings ih =>
    obtain ⟨key, first⟩ := binding
    rw [List.map_cons, List.nodup_cons] at h
    rw [List.lookup_cons, List.mem_cons, Prod.mk.injEq]
    by_cases hname : name = key
    · subst hname
      have hnot : (name, value) ∉ bindings := fun hmem =>
        h.1 (List.mem_map.mpr ⟨(name, value), hmem, rfl⟩)
      simp [hnot, eq_comm]
    · have hne : (name == key) = false := beq_false_of_ne hname
      simpa [hne, hname] using ih h.2

end Variables

/-! ## Registering distinct names -/

namespace Registry

variable {noun : Noun} {α : Type}

theorem putEntry_of_new {entry : Entry α} {entries : List (Entry α)}
    (h : entry.name ∉ entries.map Entry.name) : putEntry entry entries = entries ++ [entry] := by
  induction entries with
  | nil => rfl
  | cons other others ih =>
    rw [List.map_cons, List.mem_cons, not_or] at h
    rw [putEntry, if_neg (by simpa using fun heq => h.1 heq.symm), ih h.2]
    rfl

end Registry

namespace Engine

/-- The entry of a bound constant. -/
def boundEntry (binding : String × Decimal) : Entry Decimal := ⟨binding.1, binding.2, true⟩

/-- Constants with new and distinct names in canonical form are added as they
are. -/
theorem bindAll_eq_ok {caseSensitive : Bool} {entries : List (Entry Decimal)}
    {bindings : List (String × Decimal)} {after : Constants}
    (hcanonical : ∀ binding ∈ bindings, Text.canonical caseSensitive binding.1 = binding.1)
    (hnew : (entries.map Entry.name ++ bindings.map Prod.fst).Nodup)
    (h : bindAll ⟨caseSensitive, entries⟩ bindings = .ok after) :
    after = ⟨caseSensitive, entries ++ bindings.map boundEntry⟩ := by
  induction bindings generalizing entries with
  | nil =>
    cases h
    rw [List.map_nil, List.append_nil]
  | cons binding bindings ih =>
    obtain ⟨name, value⟩ := binding
    rw [List.forall_mem_cons] at hcanonical
    rw [bindAll] at h
    split at h
    · cases h
    · rename_i middle hregister
      obtain ⟨_, _, hmiddle⟩ := Registry.register_eq_ok_iff.mp hregister
      have hfresh : name ∉ entries.map Entry.name := by
        intro hmem
        exact List.disjoint_of_nodup_append hnew hmem List.mem_cons_self
      dsimp only at hmiddle
      rw [hcanonical.1, Registry.putEntry_of_new hfresh] at hmiddle
      subst hmiddle
      have hnames : ((entries ++ [boundEntry (name, value)]).map Entry.name ++
          bindings.map Prod.fst).Nodup := by
        rw [List.map_append, List.append_assoc]
        exact hnew
      rw [ih hcanonical.2 hnames h, List.append_assoc]
      rfl

/-- The registry of variables with distinct names in canonical form. -/
def boundTo (caseSensitive : Bool) (vars : Variables) : Constants :=
  ⟨caseSensitive, vars.bindings.map boundEntry⟩

theorem map_name_boundTo (caseSensitive : Bool) (vars : Variables) :
    (boundTo caseSensitive vars).entries.map Entry.name = vars.names := List.map_map

/-- The bound constants are the folded ones. -/
theorem bindConstants_eq_ok {caseSensitive : Bool} {constants : Variables} {bound : Constants}
    (h : bindConstants caseSensitive constants = .ok bound) :
    bound = boundTo caseSensitive (constants.fold caseSensitive) ∧
      (constants.fold caseSensitive).names.Nodup := by
  rw [bindConstants] at h
  split at h
  · cases h
  · rename_i hclash
    have hnodup := Variables.nodup_names_fold hclash
    split at h
    · cases h
    · rename_i hbind
      cases h
      have hcanonical : ∀ binding ∈ (constants.fold caseSensitive).bindings,
          Text.canonical caseSensitive binding.1 = binding.1 :=
        fun binding hmem => Variables.canonical_of_mem_names_fold (List.mem_map_of_mem hmem)
      exact ⟨@bindAll_eq_ok _ [] _ _ hcanonical hnodup hbind, hnodup⟩

end Engine

end FormulaEngine
