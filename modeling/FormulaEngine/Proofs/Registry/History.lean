import FormulaEngine.Registry
import Mathlib.Tactic.Common

/-!
# What registrations keep

A registry only changes by registrations, and each of them may be refused.
`Registry.accept` is one registration with a refusal that changes nothing,
and `Registry.acceptAll` is a run of them.

`Registry.Keeps` says what no run can take back: the case policy, that a name
is registered, and every locked entry.  `register_keeps` is the step and
`acceptAll_keeps` is the run.

`Registry.IsTidy` says that all names are stored in canonical form, and
`IsTidy.accept` that a registration keeps it.
-/

namespace FormulaEngine

/-! ## Blank names -/

namespace Text

theorem isBlankChar_toLower (c : Char) : isBlankChar c.toLower = isBlankChar c := by
  by_cases hcapital : 'A'.val ≤ c.val ∧ c.val ≤ 'Z'.val
  · rcases toLower_eq_or_small c with hsame | ⟨hlow, hhigh⟩
    · rw [hsame]
    · rw [isBlankChar_of_visible (UInt32.le_trans (by decide) hlow)
          (UInt32.le_trans hhigh (by decide)),
        isBlankChar_of_visible (UInt32.le_trans (by decide) hcapital.1)
          (UInt32.le_trans hcapital.2 (by decide))]
  · exact congrArg isBlankChar (dif_neg hcapital)

/-- A canonical name is blank if the name is. -/
theorem isBlank_canonical (caseSensitive : Bool) (name : String) :
    isBlank (canonical caseSensitive name) = isBlank name := by
  cases caseSensitive with
  | true => rfl
  | false =>
    show isBlank (foldCase name) = _
    rw [isBlank, isBlank, foldCase, String.toList_ofList, List.all_map]
    exact congrArg (List.all _) (funext isBlankChar_toLower)

end Text

namespace Registry

variable {noun : Noun} {α : Type}

/-! ## Lookups -/

/-- The entry of a name is the entry of its canonical form, and a blank name
has none. -/
theorem find?_eq (registry : Registry noun α) (name : String) :
    registry.find? name =
      if Text.isBlank name then none
      else registry.entry? (Text.canonical registry.caseSensitive name) := by
  rw [find?, find, canonicalName]
  split_ifs with hblank
  · rfl
  · dsimp only
    cases registry.entry? (Text.canonical registry.caseSensitive name) <;> rfl

/-- A registry knows a name exactly as its canonical form. -/
theorem find?_canonical (registry : Registry noun α) (name : String) :
    registry.find? (Text.canonical registry.caseSensitive name) = registry.find? name := by
  rw [find?_eq, find?_eq, Text.isBlank_canonical, Text.canonical_canonical]

theorem find?_empty (caseSensitive : Bool) (name : String) :
    (empty caseSensitive : Registry noun α).find? name = none := by
  rw [find?_eq]
  split <;> rfl

theorem name_of_entry? {registry : Registry noun α} {canonical : String} {entry : Entry α}
    (h : registry.entry? canonical = some entry) : entry.name = canonical := by
  have hfound := List.find?_some h
  exact beq_iff_eq.mp hfound

/-- An entry is found under its own name. -/
theorem name_of_find? {registry : Registry noun α} {name : String} {entry : Entry α}
    (h : registry.find? name = some entry) :
    entry.name = Text.canonical registry.caseSensitive name := by
  rw [find?_eq] at h
  split at h
  · cases h
  · exact name_of_entry? h

/-- A registered thing is found under the name of its entry. -/
theorem find?_name {registry : Registry noun α} {name : String} {entry : Entry α}
    (h : registry.find? name = some entry) : registry.find? entry.name = some entry := by
  rw [name_of_find? h, find?_canonical, h]

/-- A name in the form under which a registry stores it. -/
def IsCanonical (caseSensitive : Bool) (name : String) : Prop :=
  Text.isBlank name = false ∧ Text.canonical caseSensitive name = name

instance (caseSensitive : Bool) (name : String) : Decidable (IsCanonical caseSensitive name) :=
  inferInstanceAs (Decidable (_ ∧ _))

/-- A name in canonical form is found as it stands. -/
theorem find?_of_isCanonical {registry : Registry noun α} {name : String}
    (h : IsCanonical registry.caseSensitive name) :
    registry.find? name = registry.entry? name := by
  rw [find?_eq, h.1, h.2, if_neg Bool.false_ne_true]

theorem find?_putEntry (entry : Entry α) (name : String) (entries : List (Entry α)) :
    (putEntry entry entries).find? (fun other => other.name == name) =
      if entry.name = name then some entry
      else entries.find? (fun other => other.name == name) := by
  induction entries with
  | nil => by_cases h : entry.name = name <;> simp [putEntry, h]
  | cons other others ih =>
    rw [putEntry]
    by_cases ho : other.name = entry.name
    · by_cases h : entry.name = name <;> simp [ho, h]
    · rw [if_neg (by simpa using ho)]
      by_cases hn : other.name = name
      · have h : entry.name ≠ name := fun h => ho (hn.trans h.symm)
        simp [hn, h]
      · rw [List.find?_cons_of_neg (by simpa using hn),
          List.find?_cons_of_neg (by simpa using hn), ih]

/-! ## One registration -/

/-- A registration succeeds for a name that is not blank and not the name of
a locked entry, and then puts the entry in its place. -/
theorem register_eq_ok_iff {registry after : Registry noun α} {name : String} {content : α}
    {isOverwritable : Bool} :
    registry.register name content isOverwritable = .ok after ↔
      Text.isBlank name = false ∧
        (∀ old, registry.entry? (Text.canonical registry.caseSensitive name) = some old →
          old.isOverwritable = true) ∧
        after = { registry with
          entries := putEntry
            ⟨Text.canonical registry.caseSensitive name, content, isOverwritable⟩
            registry.entries } := by
  rw [register, canonicalName]
  by_cases hblank : Text.isBlank name = true
  · simp [hblank]
  · rw [if_neg hblank]
    dsimp only
    have hnot : Text.isBlank name = false := Bool.not_eq_true _ ▸ hblank
    cases hold : registry.entry? (Text.canonical registry.caseSensitive name) with
    | none =>
      constructor
      · intro h
        cases h
        exact ⟨hnot, fun _ hsome => (nomatch hsome), rfl⟩
      · rintro ⟨_, _, rfl⟩
        rfl
    | some old =>
      by_cases ho : old.isOverwritable = true
      · simp only [ho, if_true]
        constructor
        · intro h
          cases h
          exact ⟨hnot, fun _ hsome => Option.some.inj hsome ▸ ho, rfl⟩
        · rintro ⟨_, _, rfl⟩
          rfl
      · simp [ho]

/-- The entries after a registration: the new one under its canonical name,
and the old ones under all other names. -/
theorem entry?_register {registry after : Registry noun α} {name : String} {content : α}
    {isOverwritable : Bool}
    (h : registry.register name content isOverwritable = .ok after) (other : String) :
    after.entry? other =
      if Text.canonical registry.caseSensitive name = other then
        some ⟨Text.canonical registry.caseSensitive name, content, isOverwritable⟩
      else registry.entry? other := by
  obtain ⟨_, _, rfl⟩ := register_eq_ok_iff.mp h
  exact find?_putEntry _ _ _

/-- After a registration every name has the new entry, or the one that it
had. -/
theorem find?_register {registry after : Registry noun α} {name : String} {content : α}
    {isOverwritable : Bool}
    (h : registry.register name content isOverwritable = .ok after) (other : String) :
    after.find? other =
      if Text.isBlank other = false ∧
        Text.canonical registry.caseSensitive name = Text.canonical registry.caseSensitive other
      then some ⟨Text.canonical registry.caseSensitive name, content, isOverwritable⟩
      else registry.find? other := by
  have hpolicy : after.caseSensitive = registry.caseSensitive := by
    obtain ⟨_, _, rfl⟩ := register_eq_ok_iff.mp h
    rfl
  rw [find?_eq, find?_eq, hpolicy, entry?_register h]
  cases Text.isBlank other <;> simp

/-! ## What is kept -/

/-- What registrations never take back.  A registered name stays registered,
and a locked entry stays the same. -/
structure Keeps (before after : Registry noun α) : Prop where
  caseSensitive : after.caseSensitive = before.caseSensitive
  entry : ∀ name old, before.entry? name = some old →
    ∃ new, after.entry? name = some new ∧ (old.isOverwritable = false → new = old)

theorem Keeps.refl (registry : Registry noun α) : Keeps registry registry :=
  ⟨rfl, fun _ old h => ⟨old, h, fun _ => rfl⟩⟩

theorem Keeps.trans {first second third : Registry noun α} (h₁ : Keeps first second)
    (h₂ : Keeps second third) : Keeps first third := by
  refine ⟨h₂.caseSensitive.trans h₁.caseSensitive, ?_⟩
  intro name old hold
  obtain ⟨new, hnew, hsame⟩ := h₁.entry name old hold
  obtain ⟨last, hlast, hsame'⟩ := h₂.entry name new hnew
  refine ⟨last, hlast, ?_⟩
  intro hlocked
  have hn : new = old := hsame hlocked
  subst hn
  exact hsame' hlocked

/-- What is kept of an entry is kept of a name. -/
theorem Keeps.find? {before after : Registry noun α} (h : Keeps before after) {name : String}
    {old : Entry α} (hold : before.find? name = some old) :
    ∃ new, after.find? name = some new ∧ (old.isOverwritable = false → new = old) := by
  rw [find?_eq] at hold ⊢
  split_ifs at hold ⊢ with hblank
  rw [h.caseSensitive]
  exact h.entry _ _ hold

/-- One registration keeps what is there.  The entry that it replaces is not
locked, so the locked ones are all under other names. -/
theorem register_keeps {registry after : Registry noun α} {name : String} {content : α}
    {isOverwritable : Bool}
    (h : registry.register name content isOverwritable = .ok after) :
    Keeps registry after := by
  have hentry := entry?_register h
  obtain ⟨_, hopen, hafter⟩ := register_eq_ok_iff.mp h
  refine ⟨by rw [hafter], ?_⟩
  intro other old hold
  rw [hentry other]
  by_cases heq : Text.canonical registry.caseSensitive name = other
  · rw [if_pos heq]
    refine ⟨_, rfl, ?_⟩
    intro hlocked
    have := hopen old (heq ▸ hold)
    rw [hlocked] at this
    exact absurd this Bool.false_ne_true
  · rw [if_neg heq]
    exact ⟨old, hold, fun _ => rfl⟩

end Registry

/-! ## Runs -/

/-- What a registration is called with. -/
structure Registration (α : Type) where
  name : String
  content : α
  isOverwritable : Bool

namespace Registry

variable {noun : Noun} {α : Type}

/-- The registry after a registration.  A refused one changes nothing. -/
def accept (registry : Registry noun α) (call : Registration α) : Registry noun α :=
  match registry.register call.name call.content call.isOverwritable with
  | .ok after => after
  | .error _ => registry

/-- The registry after a run of registrations. -/
def acceptAll (registry : Registry noun α) (calls : List (Registration α)) :
    Registry noun α :=
  calls.foldl accept registry

theorem accept_keeps (registry : Registry noun α) (call : Registration α) :
    Keeps registry (registry.accept call) := by
  rw [accept]
  split
  · rename_i after h
    exact register_keeps h
  · exact Keeps.refl registry

/-- A run of registrations keeps what is there. -/
theorem acceptAll_keeps (registry : Registry noun α) (calls : List (Registration α)) :
    Keeps registry (registry.acceptAll calls) := by
  induction calls generalizing registry with
  | nil => exact Keeps.refl registry
  | cons call calls ih => exact (accept_keeps registry call).trans (ih _)

/-! ## Tidy registries -/

/-- All names are in canonical form. -/
def IsTidy (registry : Registry noun α) : Prop :=
  ∀ entry ∈ registry.entries, IsCanonical registry.caseSensitive entry.name

theorem mem_putEntry {entry other : Entry α} {entries : List (Entry α)}
    (h : other ∈ putEntry entry entries) : other = entry ∨ other ∈ entries := by
  induction entries with
  | nil => exact .inl (List.mem_singleton.mp h)
  | cons first entries ih =>
    rw [putEntry] at h
    split at h
    · exact (List.mem_cons.mp h).imp_right (List.mem_cons_of_mem _)
    · rcases List.mem_cons.mp h with rfl | hmem
      · exact .inr List.mem_cons_self
      · exact (ih hmem).imp_right (List.mem_cons_of_mem _)

/-- A registration stores the canonical form of its name. -/
theorem IsTidy.accept {registry : Registry noun α} (h : registry.IsTidy)
    (call : Registration α) : (registry.accept call).IsTidy := by
  rw [Registry.accept]
  split
  · rename_i after hregister
    obtain ⟨hnonblank, _, rfl⟩ := register_eq_ok_iff.mp hregister
    intro entry hmem
    rcases mem_putEntry hmem with rfl | hold
    · exact ⟨(Text.isBlank_canonical _ _).trans hnonblank, Text.canonical_canonical _ _⟩
    · exact h entry hold
  · exact h

/-- A canonical name is found as it stands. -/
theorem IsTidy.find?_eq {registry : Registry noun α} (h : registry.IsTidy) {name : String}
    (hname : Text.canonical registry.caseSensitive name = name) :
    registry.find? name = registry.entry? name := by
  rw [Registry.find?_eq, hname]
  split
  · rename_i hblank
    cases hentry : registry.entry? name with
    | none => rfl
    | some entry =>
      have hcanonical := (h entry (List.mem_of_find?_eq_some hentry)).1
      have hsame : entry.name = name := name_of_entry? hentry
      rw [hsame, hblank] at hcanonical
      exact absurd hcanonical.symm Bool.false_ne_true
  · rfl

end FormulaEngine.Registry
