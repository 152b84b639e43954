import FormulaEngine.Builtin
import FormulaEngine.Proofs.Registry.History
import Mathlib.Data.Finset.Card
import Mathlib.Data.Finset.Dedup

/-!
# Registries are maps

A run of registrations has a history: the entries that were there at its start,
and behind them the one of each registration that was accepted
(`Registry.history`).  Everything that can be asked of the registry after the
run is answered by the history alone.

* A name has the last entry of its history (`entry?_acceptAll`).
* The names are those of the history, each of them once (`IsProper.acceptAll`,
  `IsProper.size_acceptAll`).

`Registry.IsMapAfter` puts this together with the rule for refusals and with
what no run takes back.  `registries_are_maps` says that it holds for empty
registries and for those of the built-in functions and constants.
-/

namespace FormulaEngine

namespace Registry

variable {noun : Noun} {α : Type}

/-! ## Histories -/

/-- The entry that a registration stores when it is accepted. -/
def entryOf (registry : Registry noun α) (call : Registration α) : Entry α :=
  ⟨Text.canonical registry.caseSensitive call.name, call.content, call.isOverwritable⟩

/-- The entries that a run of registrations stores.  Refused ones store
nothing. -/
def stored (registry : Registry noun α) : List (Registration α) → List (Entry α)
  | [] => []
  | call :: calls =>
    match registry.register call.name call.content call.isOverwritable with
    | .ok after => registry.entryOf call :: after.stored calls
    | .error _ => registry.stored calls

/-- The entries from the start of a run and those that it stores, in the order
in which they came. -/
def history (start : Registry noun α) (calls : List (Registration α)) : List (Entry α) :=
  start.entries ++ start.stored calls

/-- The last entry of a list under a name. -/
def lastNamed (entries : List (Entry α)) (name : String) : Option (Entry α) :=
  entries.reverse.find? fun entry => entry.name == name

theorem lastNamed_append (entries entries' : List (Entry α)) (name : String) :
    lastNamed (entries ++ entries') name =
      (lastNamed entries' name).or (lastNamed entries name) := by
  rw [lastNamed, List.reverse_append, List.find?_append]
  rfl

theorem lastNamed_cons (entry : Entry α) (entries : List (Entry α)) (name : String) :
    lastNamed (entry :: entries) name =
      (lastNamed entries name).or (if entry.name = name then some entry else none) := by
  rw [← List.singleton_append, lastNamed_append]
  congr 1
  by_cases h : entry.name = name <;> simp [lastNamed, h]

theorem isSome_lastNamed_iff {entries : List (Entry α)} {name : String} :
    (lastNamed entries name).isSome ↔ name ∈ entries.map Entry.name := by
  simp [lastNamed]

/-! ## Names -/

theorem isSome_entry?_iff {registry : Registry noun α} {name : String} :
    (registry.entry? name).isSome ↔ name ∈ registry.entries.map Entry.name := by
  unfold entry?
  simp

/-- The names are in canonical form, and no name is there twice. -/
structure IsProper (registry : Registry noun α) : Prop where
  tidy : registry.IsTidy
  nodup : (registry.entries.map Entry.name).Nodup

/-- With distinct names, the only entry of a name is the last one. -/
theorem lastNamed_of_nodup {entries : List (Entry α)} (h : (entries.map Entry.name).Nodup)
    (name : String) :
    lastNamed entries name = entries.find? fun entry => entry.name == name := by
  induction entries with
  | nil => rfl
  | cons first entries ih =>
    rw [List.map_cons, List.nodup_cons] at h
    rw [lastNamed_cons, ih h.2, List.find?_cons]
    by_cases hname : first.name = name
    · have hnone : entries.find? (fun entry => entry.name == name) = none := by
        rw [List.find?_eq_none]
        intro entry hmem hentry
        refine h.1 (List.mem_map.mpr ⟨entry, hmem, ?_⟩)
        rw [hname]
        exact beq_iff_eq.mp hentry
      simp [hname, hnone]
    · simp [hname, beq_false_of_ne hname]

/-- The names after an entry is put into a list: the same, or one more. -/
theorem map_name_putEntry (entry : Entry α) (entries : List (Entry α)) :
    (putEntry entry entries).map Entry.name =
      if entry.name ∈ entries.map Entry.name then entries.map Entry.name
      else entries.map Entry.name ++ [entry.name] := by
  induction entries with
  | nil => rfl
  | cons first entries ih =>
    rw [putEntry]
    by_cases hname : first.name = entry.name
    · simp [hname]
    · have hname' : ¬entry.name = first.name := fun h => hname h.symm
      rw [if_neg (by simpa using hname), List.map_cons, ih]
      by_cases hmem : entry.name ∈ entries.map Entry.name
      · rw [if_pos hmem, if_pos (by simpa [hname'] using hmem), List.map_cons]
      · rw [if_neg hmem, if_neg (by simpa [hname'] using hmem), List.map_cons, List.cons_append]

/-- A registration keeps the names distinct and in canonical form. -/
theorem IsProper.accept {registry : Registry noun α} (h : registry.IsProper)
    (call : Registration α) : (registry.accept call).IsProper := by
  refine ⟨h.tidy.accept call, ?_⟩
  rw [Registry.accept]
  split
  · rename_i after hregister
    obtain ⟨_, _, rfl⟩ := register_eq_ok_iff.mp hregister
    rw [map_name_putEntry]
    split
    · exact h.nodup
    · rename_i hnew
      exact List.nodup_append.mpr ⟨h.nodup, List.nodup_singleton _, by simpa using hnew⟩
  · exact h.nodup

theorem IsProper.acceptAll {registry : Registry noun α} (h : registry.IsProper)
    (calls : List (Registration α)) : (registry.acceptAll calls).IsProper := by
  induction calls generalizing registry with
  | nil => exact h
  | cons call calls ih => exact ih (h.accept call)

/-! ## Runs and their histories -/

/-- After a run a name has the last entry that was stored under it, or else the
one from the start. -/
theorem entry?_acceptAll (registry : Registry noun α) (calls : List (Registration α))
    (name : String) :
    entry? (registry.acceptAll calls) name =
      (lastNamed (registry.stored calls) name).or (registry.entry? name) := by
  induction calls generalizing registry with
  | nil => rfl
  | cons call calls ih =>
    change entry? ((registry.accept call).acceptAll calls) name = _
    rw [ih, accept, stored]
    cases hregister : registry.register call.name call.content call.isOverwritable with
    | error e => rfl
    | ok after =>
      dsimp only
      rw [lastNamed_cons, entry?_register hregister, entryOf, Option.or_assoc]
      congr 1
      split <;> rfl

/-- After a run a name has the last entry of its history. -/
theorem IsProper.entry?_acceptAll {start : Registry noun α} (h : start.IsProper)
    (calls : List (Registration α)) (name : String) :
    entry? (start.acceptAll calls) name = lastNamed (start.history calls) name := by
  rw [Registry.entry?_acceptAll, history, lastNamed_append, lastNamed_of_nodup h.nodup]
  rfl

theorem caseSensitive_acceptAll (start : Registry noun α) (calls : List (Registration α)) :
    (start.acceptAll calls).caseSensitive = start.caseSensitive :=
  (acceptAll_keeps start calls).caseSensitive

theorem acceptAll_append (start : Registry noun α) (calls later : List (Registration α)) :
    start.acceptAll (calls ++ later) = (start.acceptAll calls).acceptAll later :=
  List.foldl_append

theorem isCanonical_of_mem_stored {registry : Registry noun α} {calls : List (Registration α)}
    {entry : Entry α} (h : entry ∈ registry.stored calls) :
    IsCanonical registry.caseSensitive entry.name := by
  induction calls generalizing registry with
  | nil => cases h
  | cons call calls ih =>
    rw [stored] at h
    split at h
    · rename_i after hregister
      obtain ⟨hnonblank, _, rfl⟩ := register_eq_ok_iff.mp hregister
      rcases List.mem_cons.mp h with rfl | hmem
      · exact ⟨(Text.isBlank_canonical _ _).trans hnonblank, Text.canonical_canonical _ _⟩
      · have hrest := ih hmem
        exact hrest
    · exact ih h

theorem IsProper.isCanonical_of_mem_history {start : Registry noun α} (h : start.IsProper)
    {calls : List (Registration α)} {entry : Entry α} (hmem : entry ∈ start.history calls) :
    IsCanonical start.caseSensitive entry.name := by
  rcases List.mem_append.mp hmem with hmem | hmem
  · exact h.tidy entry hmem
  · exact isCanonical_of_mem_stored hmem

/-- The names after a run are those of its history. -/
theorem IsProper.size_acceptAll {start : Registry noun α} (h : start.IsProper)
    (calls : List (Registration α)) :
    (start.acceptAll calls).size = ((start.history calls).map Entry.name).toFinset.card := by
  have hsame : ((start.acceptAll calls).entries.map Entry.name).toFinset =
      ((start.history calls).map Entry.name).toFinset := by
    ext name
    rw [List.mem_toFinset, List.mem_toFinset, ← isSome_entry?_iff, ← isSome_lastNamed_iff,
      h.entry?_acceptAll]
  rw [← hsame, List.toFinset_card_of_nodup (h.acceptAll calls).nodup, List.length_map]
  rfl

/-! ## Requests to a registry -/

/-- A registration is refused for a blank name and for the name of a locked
entry, and for no other reason. -/
theorem register_eq_error_iff {registry : Registry noun α} {name : String} {content : α}
    {isOverwritable : Bool} :
    (∃ e, registry.register name content isOverwritable = .error e) ↔
      Text.isBlank name = true ∨
        ∃ entry, registry.entry? (Text.canonical registry.caseSensitive name) = some entry ∧
          entry.isOverwritable = false := by
  rw [register, canonicalName]
  cases hblank : Text.isBlank name with
  | true => simp
  | false =>
    cases hold : registry.entry? (Text.canonical registry.caseSensitive name) with
    | none => simp [hold]
    | some old => cases hopen : old.isOverwritable <;> simp [hold, hopen]

theorem find_eq (registry : Registry noun α) (name : String) :
    registry.find name =
      if Text.isBlank name then .error .blankName
      else
        match registry.entry? (Text.canonical registry.caseSensitive name) with
        | some entry => .ok entry
        | none => .error (.notFound noun (Text.canonical registry.caseSensitive name)) := by
  rw [find, canonicalName]
  split_ifs <;> rfl

theorem find_eq_ok_iff {registry : Registry noun α} {name : String} {entry : Entry α} :
    registry.find name = .ok entry ↔ registry.find? name = some entry := by
  rw [find?]
  cases registry.find name <;> simp [Except.toOption]

/-- A registry after a run of registrations is the map of its history. -/
structure IsMapAfter (start : Registry noun α) (calls : List (Registration α)) : Prop where
  /-- The history speaks of canonical names. -/
  canonical : ∀ entry ∈ start.history calls, IsCanonical start.caseSensitive entry.name
  /-- A registration fails exactly for a blank name, or if the canonical name is
  that of a locked entry. -/
  refuses : ∀ call : Registration α,
    (∃ e, (start.acceptAll calls).register call.name call.content call.isOverwritable
        = .error e) ↔
      Text.isBlank call.name = true ∨
        ∃ entry, lastNamed (start.history calls)
            (Text.canonical start.caseSensitive call.name) = some entry ∧
          entry.isOverwritable = false
  /-- A registration that fails changes nothing. -/
  unchanged : ∀ (call : Registration α) (e : RegistryError),
    (start.acceptAll calls).register call.name call.content call.isOverwritable = .error e →
      start.acceptAll (calls ++ [call]) = start.acceptAll calls
  /-- A name has the last entry that was registered under its canonical form.  A
  blank name has no canonical form. -/
  finds : ∀ name, (start.acceptAll calls).find name =
    if Text.isBlank name then .error .blankName
    else
      match lastNamed (start.history calls) (Text.canonical start.caseSensitive name) with
      | some entry => .ok entry
      | none => .error (.notFound noun (Text.canonical start.caseSensitive name))
  /-- A locked entry never changes again. -/
  locked : ∀ (later : List (Registration α)) (name : String) (entry : Entry α),
    (start.acceptAll calls).find name = .ok entry → entry.isOverwritable = false →
      (start.acceptAll (calls ++ later)).find name = .ok entry
  /-- No name ever disappears. -/
  stays : ∀ (later : List (Registration α)) (name : String) (entry : Entry α),
    (start.acceptAll calls).find name = .ok entry →
      ∃ entry', (start.acceptAll (calls ++ later)).find name = .ok entry'
  /-- The size is the number of distinct names that were registered. -/
  size : (start.acceptAll calls).size = ((start.history calls).map Entry.name).toFinset.card

theorem IsProper.isMapAfter {start : Registry noun α} (h : start.IsProper)
    (calls : List (Registration α)) : start.IsMapAfter calls where
  canonical := fun _ hmem => h.isCanonical_of_mem_history hmem
  refuses := by
    intro call
    rw [register_eq_error_iff, h.entry?_acceptAll, caseSensitive_acceptAll]
  unchanged := by
    intro call e hrefused
    rw [acceptAll_append]
    show (start.acceptAll calls).accept call = _
    rw [Registry.accept, hrefused]
  finds := by
    intro name
    rw [find_eq, h.entry?_acceptAll, caseSensitive_acceptAll]
  locked := by
    intro later name entry hfind hlocked
    rw [find_eq_ok_iff] at hfind ⊢
    obtain ⟨new, hnew, hsame⟩ := (acceptAll_keeps (start.acceptAll calls) later).find? hfind
    rw [acceptAll_append, hnew, hsame hlocked]
  stays := by
    intro later name entry hfind
    rw [find_eq_ok_iff] at hfind
    obtain ⟨new, hnew, _⟩ := (acceptAll_keeps (start.acceptAll calls) later).find? hfind
    exact ⟨new, by rw [acceptAll_append, find_eq_ok_iff, hnew]⟩
  size := h.size_acceptAll calls

/-! ## Registries at the start -/

theorem isProper_empty (caseSensitive : Bool) :
    (empty caseSensitive : Registry noun α).IsProper :=
  ⟨List.forall_mem_nil _, List.nodup_nil⟩

theorem isProper_of_names {registry : Registry noun α} {names : List String}
    (hnames : registry.entries.map Entry.name = names)
    (hcanonical : ∀ name ∈ names, IsCanonical registry.caseSensitive name)
    (hnodup : names.Nodup) : registry.IsProper := by
  subst hnames
  exact ⟨fun entry hmem => hcanonical entry.name (List.mem_map_of_mem hmem), hnodup⟩

end Registry

namespace Builtin

theorem isProper_functionRegistry (caseSensitive : Bool) (draw : Decimal) :
    (functionRegistry caseSensitive draw).IsProper := by
  have hcanonical : ∀ caseSensitive, ∀ name ∈ (functions .zero).map Prod.fst,
      Registry.IsCanonical caseSensitive name := by decide +kernel
  have hnodup : ((functions .zero).map Prod.fst).Nodup := by decide +kernel
  exact Registry.isProper_of_names rfl (hcanonical caseSensitive) hnodup

theorem isProper_constantRegistry (caseSensitive : Bool) :
    (constantRegistry caseSensitive).IsProper := by
  have hcanonical : ∀ caseSensitive, ∀ name ∈ constants.map Prod.fst,
      Registry.IsCanonical caseSensitive name := by decide +kernel
  have hnodup : (constants.map Prod.fst).Nodup := by decide +kernel
  exact Registry.isProper_of_names rfl (hcanonical caseSensitive) hnodup

end Builtin

/-- Registries are maps over whole runs, under both case policies and from both
starts: the empty tables and the built-in ones. -/
theorem registries_are_maps (caseSensitive : Bool) (draw : Decimal)
    (functionCalls : List (Registration Function))
    (constantCalls : List (Registration Decimal)) :
    (Registry.empty caseSensitive : Functions).IsMapAfter functionCalls ∧
      (Builtin.functionRegistry caseSensitive draw).IsMapAfter functionCalls ∧
      (Registry.empty caseSensitive : Constants).IsMapAfter constantCalls ∧
      (Builtin.constantRegistry caseSensitive).IsMapAfter constantCalls :=
  ⟨(Registry.isProper_empty caseSensitive).isMapAfter functionCalls,
    (Builtin.isProper_functionRegistry caseSensitive draw).isMapAfter functionCalls,
    (Registry.isProper_empty caseSensitive).isMapAfter constantCalls,
    (Builtin.isProper_constantRegistry caseSensitive).isMapAfter constantCalls⟩

/-- The second registration replaces the first one and locks the name, so the
third one is refused. -/
example :
    ((Registry.empty false : Constants).acceptAll
      [⟨"Rate", .one, true⟩, ⟨"RATE", .zero, false⟩, ⟨"rate", .one, true⟩]).find "rAte" =
        .ok ⟨"rate", .zero, false⟩ := by
  rfl

/-- A blank name is not looked up at all: it has no entry, and the error does
not say that it is missing. -/
theorem blank_name_is_refused :
    (Builtin.functionRegistry false .zero).find " " = .error .blankName ∧
      (∀ entry, (Builtin.functionRegistry false .zero).find " " ≠ .ok entry) ∧
      ∀ name,
        (Builtin.functionRegistry false .zero).find " " ≠ .error (.notFound .function name) := by
  have hblank : (Builtin.functionRegistry false .zero).find " " = .error .blankName := by rfl
  rw [hblank]
  exact ⟨rfl, nofun, nofun⟩

end FormulaEngine
