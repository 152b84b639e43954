import FormulaEngine.Proofs.Decimal.Text
import FormulaEngine.Proofs.Engine.Binding
import FormulaEngine.Proofs.Token.Alphabet
import Mathlib.Data.Option.Defs

/-!
# What a cache key tells

The key of a text with bound constants is the text, an at sign, and the
constants in the order of their names: `a + b@a:1,b:2`.  Nothing is escaped,
so a key can be read back only if the signs stand where the key puts them.

* A name with a comma can pass for two constants, and one with an at sign can
  take away the end of the text.  `IsPlainName` excludes both.
* A text with an at sign and a colon can pass for a text with constants.
  `IsPlainText` excludes it, and `isPlainText_of_tokenize` says that no text
  that can be split into tokens is one of these.

`cacheKey_eq_iff` is the result: apart from such names and texts, a key tells
the text, the names, and the values as numbers.
-/

namespace FormulaEngine

open Text

/-! ## Splitting at a sign -/

/-- The last occurrence of a sign splits a list in one way only. -/
theorem append_cons_inj_of_notMem_right {α : Type} {sign : α} {before before' after after' : List α}
    (h : sign ∉ after) (h' : sign ∉ after')
    (heq : before ++ sign :: after = before' ++ sign :: after') :
    before = before' ∧ after = after' := by
  rcases List.append_eq_append_iff.mp heq with ⟨more, hbefore, hafter⟩ | ⟨more, hbefore, hafter⟩
  · cases more with
    | nil =>
      rw [List.append_nil] at hbefore
      exact ⟨hbefore.symm, (List.cons.inj hafter).2⟩
    | cons c more =>
      have hmem : sign ∈ after := by
        rw [(List.cons.inj hafter).2]
        exact List.mem_append_right _ List.mem_cons_self
      exact absurd hmem h
  · cases more with
    | nil =>
      rw [List.append_nil] at hbefore
      exact ⟨hbefore, (List.cons.inj hafter).2.symm⟩
    | cons c more =>
      have hmem : sign ∈ after' := by
        rw [(List.cons.inj hafter).2]
        exact List.mem_append_right _ List.mem_cons_self
      exact absurd hmem h'

theorem mem_intercalate {α : Type} {c separator : α} (hne : c ≠ separator)
    {parts : List (List α)} :
    c ∈ [separator].intercalate parts ↔ ∃ part ∈ parts, c ∈ part := by
  induction parts with
  | nil => simp
  | cons first others ih =>
    cases others with
    | nil => simp
    | cons second others =>
      rw [List.intercalate_cons_cons, List.mem_append, List.mem_append, List.mem_singleton, ih]
      simp [hne]

theorem intercalate_inj {α : Type} [DecidableEq α] {separator : α} {parts parts' : List (List α)}
    (h : ∀ part ∈ parts, separator ∉ part) (h' : ∀ part ∈ parts', separator ∉ part)
    (hsome : parts ≠ []) (hsome' : parts' ≠ [])
    (heq : [separator].intercalate parts = [separator].intercalate parts') : parts = parts' := by
  rw [← List.splitOn_intercalate separator h hsome, heq,
    List.splitOn_intercalate separator h' hsome']

theorem map_eq_map_iff_of_eq_iff {α β γ : Type} {f : α → β} {g : α → γ}
    (h : ∀ a b, f a = f b ↔ g a = g b) {as bs : List α} :
    as.map f = bs.map f ↔ as.map g = bs.map g := by
  induction as generalizing bs with
  | nil => cases bs <;> simp
  | cons a as ih => cases bs <;> simp [h, ih]

namespace Engine

/-! ## Plain names and texts -/

/-- A name without at sign and comma. -/
def IsPlainName (name : String) : Prop := '@' ∉ name.toList ∧ ',' ∉ name.toList

instance (name : String) : Decidable (IsPlainName name) := inferInstanceAs (Decidable (_ ∧ _))

/-- Folding brings no at sign and no comma into a name. -/
theorem isPlainName_canonical {name : String} (caseSensitive : Bool) (h : IsPlainName name) :
    IsPlainName (canonical caseSensitive name) := by
  have hsign : ∀ sign : Char, ¬('a'.val ≤ sign.val ∧ sign.val ≤ 'z'.val) →
      sign ∈ (foldCase name).toList → sign ∈ name.toList := by
    intro sign hsmall hmem
    rw [foldCase, String.toList_ofList] at hmem
    obtain ⟨c, hc, rfl⟩ := List.mem_map.mp hmem
    rcases toLower_eq_or_small c with heq | hlower
    · rwa [heq]
    · exact absurd hlower hsmall
  cases caseSensitive with
  | true => exact h
  | false =>
    exact ⟨fun hat => h.1 (hsign '@' (by decide) hat),
      fun hcomma => h.2 (hsign ',' (by decide) hcomma)⟩

/-- Variables with plain names. -/
def HasPlainNames (vars : Variables) : Prop := ∀ name ∈ vars.names, IsPlainName name

instance (vars : Variables) : Decidable (HasPlainNames vars) :=
  inferInstanceAs (Decidable (∀ name ∈ vars.names, IsPlainName name))

theorem hasPlainNames_empty : HasPlainNames .empty := by
  intro name h
  cases h

theorem HasPlainNames.fold {vars : Variables} (h : HasPlainNames vars) (caseSensitive : Bool) :
    HasPlainNames (vars.fold caseSensitive) := by
  intro name hname
  obtain ⟨original, horiginal, rfl⟩ := Variables.exists_of_mem_names_fold hname
  exact isPlainName_canonical caseSensitive (h original horiginal)

/-- A text that is not the key of another text with constants. -/
def IsPlainText (text : String) : Prop := '@' ∉ text.toList ∨ ':' ∉ text.toList

instance (text : String) : Decidable (IsPlainText text) := inferInstanceAs (Decidable (_ ∨ _))

/-- Every text that can be split into tokens is plain, whatever character is
chosen for the decimal separator. -/
theorem isPlainText_of_tokenize {p : Punctuation} {text : String} {tokens : List Token}
    (h : tokenize p text = .ok tokens) : IsPlainText text :=
  notMem_of_tokenize (by decide) (by decide) (by decide) h

/-! ## The parts of a key -/

/-- The name and the printed value of an entry. -/
def keyPair (entry : Entry Decimal) : String × String := (entry.name, entry.content.toText)

theorem toList_keyPart (entry : Entry Decimal) :
    (keyPart entry).toList = entry.name.toList ++ ':' :: entry.content.toChars := by
  rw [keyPart, String.toList_append, String.toList_append, Decimal.toText, String.toList_ofList,
    List.append_assoc]
  exact congrArg (_ ++ ':' :: ·) String.toList_ofList

/-- A printed value has none of the signs between the parts. -/
theorem notMem_toChars (d : Decimal) :
    '@' ∉ d.toChars ∧ ':' ∉ d.toChars ∧ ',' ∉ d.toChars := by
  refine ⟨?_, ?_, ?_⟩ <;>
    (intro h; rcases Decimal.mem_toChars h with hdigit | hpoint | hminus <;> contradiction)

theorem notMem_keyPart {entry : Entry Decimal} (h : IsPlainName entry.name) :
    '@' ∉ (keyPart entry).toList ∧ ',' ∉ (keyPart entry).toList := by
  obtain ⟨hat, hcomma⟩ := h
  obtain ⟨hat', _, hcomma'⟩ := notMem_toChars entry.content
  rw [toList_keyPart, List.mem_append, List.mem_append, List.mem_cons, List.mem_cons]
  exact ⟨by simp [hat, hat'], by simp [hcomma, hcomma']⟩

/-- A part tells the name and the printed value: the value has no colon. -/
theorem keyPart_eq_iff {entry entry' : Entry Decimal} :
    keyPart entry = keyPart entry' ↔ keyPair entry = keyPair entry' := by
  constructor
  · intro heq
    have hchars := congrArg String.toList heq
    rw [toList_keyPart, toList_keyPart] at hchars
    obtain ⟨hname, hvalue⟩ := append_cons_inj_of_notMem_right (notMem_toChars entry.content).2.1
      (notMem_toChars entry'.content).2.1 hchars
    rw [keyPair, keyPair, String.toList_inj.mp hname, Decimal.toText, Decimal.toText, hvalue]
  · intro heq
    obtain ⟨hname, hvalue⟩ := Prod.mk.inj heq
    rw [keyPart, keyPart, hname, hvalue]

/-- The entries in the order in which a key lists them. -/
def sortedEntries (bound : Constants) : List (Entry Decimal) :=
  bound.entries.mergeSort fun a b => decide (a.name ≤ b.name)

theorem mem_sortedEntries {bound : Constants} {entry : Entry Decimal} :
    entry ∈ sortedEntries bound ↔ entry ∈ bound.entries :=
  List.mem_mergeSort

/-- The constants of a key. -/
def keyParts (bound : Constants) : List (List Char) :=
  (sortedEntries bound).map fun entry => (keyPart entry).toList

theorem toList_cacheKey {text : String} {bound : Constants} (h : bound.isEmpty = false) :
    (cacheKey text bound).toList =
      text.toList ++ '@' :: [','].intercalate (keyParts bound) := by
  rw [cacheKey, if_neg (by simp [h]), String.toList_append, String.toList_append,
    String.toList_intercalate, List.map_map, List.append_assoc]
  rfl

theorem keyParts_eq_nil_iff {bound : Constants} :
    keyParts bound = [] ↔ bound.isEmpty = true := by
  rw [keyParts, sortedEntries, List.map_eq_nil_iff, ← List.length_eq_zero_iff,
    List.length_mergeSort, List.length_eq_zero_iff, Registry.isEmpty, List.isEmpty_iff]

theorem keyParts_ne_nil {bound : Constants} (h : bound.isEmpty = false) : keyParts bound ≠ [] := by
  rw [ne_eq, keyParts_eq_nil_iff, h]
  exact Bool.false_ne_true

theorem cacheKey_of_isEmpty (text : String) {bound : Constants} (h : bound.isEmpty = true) :
    cacheKey text bound = text := if_pos h

/-- A key with constants has an at sign and a colon. -/
theorem not_isPlainText_cacheKey (text : String) {bound : Constants} (h : bound.isEmpty = false) :
    ¬IsPlainText (cacheKey text bound) := by
  obtain ⟨part, hpart⟩ := List.exists_mem_of_ne_nil _ (keyParts_ne_nil h)
  obtain ⟨entry, _, rfl⟩ := List.mem_map.mp hpart
  have hcolon : ':' ∈ (keyPart entry).toList := by
    rw [toList_keyPart]
    exact List.mem_append_right _ List.mem_cons_self
  have hjoined : ':' ∈ [','].intercalate (keyParts bound) :=
    (mem_intercalate (by decide)).mpr ⟨_, hpart, hcolon⟩
  rw [IsPlainText, toList_cacheKey h, not_or, not_not, not_not]
  exact ⟨List.mem_append_right _ List.mem_cons_self,
    List.mem_append_right _ (List.mem_cons_of_mem _ hjoined)⟩

/-! ## Reading a key -/

/-- Plain names keep their signs out of the constants of a key. -/
theorem notMem_keyParts {bound : Constants} (h : ∀ entry ∈ bound.entries, IsPlainName entry.name) :
    '@' ∉ [','].intercalate (keyParts bound) ∧ ∀ part ∈ keyParts bound, ',' ∉ part := by
  have hparts : ∀ part ∈ keyParts bound, '@' ∉ part ∧ ',' ∉ part := by
    rw [keyParts, List.forall_mem_map]
    exact fun entry hmem => notMem_keyPart (h entry (mem_sortedEntries.mp hmem))
  refine ⟨?_, fun part hmem => (hparts part hmem).2⟩
  rw [mem_intercalate (by decide)]
  rintro ⟨part, hmem, hat⟩
  exact (hparts part hmem).1 hat

theorem keyParts_eq_iff {bound bound' : Constants} :
    keyParts bound = keyParts bound' ↔
      (sortedEntries bound).map keyPair = (sortedEntries bound').map keyPair :=
  map_eq_map_iff_of_eq_iff fun _ _ => String.toList_inj.trans keyPart_eq_iff

/-- A text is not the key of a text with constants. -/
theorem cacheKey_ne {text text' : String} {bound bound' : Constants} (htext : IsPlainText text)
    (h : bound.isEmpty = true) (h' : bound'.isEmpty = false) :
    cacheKey text bound ≠ cacheKey text' bound' := by
  rw [cacheKey_of_isEmpty text h]
  rintro rfl
  exact not_isPlainText_cacheKey text' h' htext

/-- A key tells the text, and the names and printed values in their order. -/
theorem cacheKey_eq_iff_sorted {text text' : String} {bound bound' : Constants}
    (htext : IsPlainText text) (htext' : IsPlainText text')
    (hnames : ∀ entry ∈ bound.entries, IsPlainName entry.name)
    (hnames' : ∀ entry ∈ bound'.entries, IsPlainName entry.name) :
    cacheKey text bound = cacheKey text' bound' ↔
      text = text' ∧ (sortedEntries bound).map keyPair = (sortedEntries bound').map keyPair := by
  rw [← keyParts_eq_iff]
  cases hempty : bound.isEmpty with
  | true =>
    rw [keyParts_eq_nil_iff.mpr hempty, eq_comm (a := []), keyParts_eq_nil_iff]
    cases hempty' : bound'.isEmpty with
    | true => simp [cacheKey_of_isEmpty, hempty, hempty']
    | false => simp [cacheKey_ne htext hempty hempty']
  | false =>
    cases hempty' : bound'.isEmpty with
    | true =>
      rw [keyParts_eq_nil_iff.mpr hempty', keyParts_eq_nil_iff, hempty]
      simp [(cacheKey_ne htext' hempty' hempty).symm]
    | false =>
      obtain ⟨hat, hcomma⟩ := notMem_keyParts hnames
      obtain ⟨hat', hcomma'⟩ := notMem_keyParts hnames'
      rw [← String.toList_inj, toList_cacheKey hempty, toList_cacheKey hempty']
      constructor
      · intro heq
        obtain ⟨hchars, hjoined⟩ := append_cons_inj_of_notMem_right hat hat' heq
        exact ⟨String.toList_inj.mp hchars, intercalate_inj hcomma hcomma'
          (keyParts_ne_nil hempty) (keyParts_ne_nil hempty') hjoined⟩
      · rintro ⟨rfl, hparts⟩
        rw [hparts]

/-! ## The constants of a key as numbers -/

theorem pairwise_sortedEntries (bound : Constants) :
    (sortedEntries bound).Pairwise fun a b => a.name ≤ b.name := by
  refine (List.pairwise_mergeSort ?_ ?_ bound.entries).imp of_decide_eq_true
  · intro a b c hab hbc
    exact decide_eq_true (String.le_trans (of_decide_eq_true hab) (of_decide_eq_true hbc))
  · intro a b
    rw [Bool.or_eq_true, decide_eq_true_iff, decide_eq_true_iff]
    exact String.le_total a.name b.name

theorem perm_map_keyPair_sortedEntries (bound : Constants) :
    ((sortedEntries bound).map keyPair).Perm (bound.entries.map keyPair) :=
  (List.mergeSort_perm _ _).map _

/-- Distinct names have one order, so the pairs of a key are the same list as
soon as they are the same in any order. -/
theorem map_keyPair_sortedEntries_eq_iff {bound bound' : Constants}
    (hnodup : (bound.entries.map Entry.name).Nodup) :
    (sortedEntries bound).map keyPair = (sortedEntries bound').map keyPair ↔
      (bound.entries.map keyPair).Perm (bound'.entries.map keyPair) := by
  have hperm := perm_map_keyPair_sortedEntries bound
  have hperm' := perm_map_keyPair_sortedEntries bound'
  constructor
  · intro heq
    exact hperm.symm.trans (heq ▸ hperm')
  · intro hsame
    have hsorted := (hperm.trans hsame).trans hperm'.symm
    have hfirst : ((bound.entries.map keyPair).map Prod.fst).Nodup := by
      rw [List.map_map]
      exact hnodup
    have hpairwise : ∀ bound : Constants,
        ((sortedEntries bound).map keyPair).Pairwise fun a b => a.1 ≤ b.1 :=
      fun bound => List.pairwise_map.mpr (pairwise_sortedEntries bound)
    refine hsorted.eq_of_pairwise ?_ (hpairwise bound) (hpairwise bound')
    intro a b ha hb hle hge
    exact List.inj_on_of_nodup_map hfirst (hperm.mem_iff.mp ha)
      (hsame.mem_iff.mpr (hperm'.mem_iff.mp hb)) (String.le_antisymm hle hge)

/-- A pair of a bound constant is the printed value of the name. -/
theorem mem_map_keyPair_iff {caseSensitive : Bool} {vars : Variables}
    (hnodup : vars.names.Nodup) {name printed : String} :
    (name, printed) ∈ (boundTo caseSensitive vars).entries.map keyPair ↔
      (vars.find? name).map Decimal.toText = some printed := by
  rw [boundTo, List.map_map, List.mem_map, Option.map_eq_some_iff]
  constructor
  · rintro ⟨⟨name', value⟩, hmem, hpair⟩
    obtain ⟨rfl, rfl⟩ := Prod.mk.inj hpair
    exact ⟨value, (Variables.find?_eq_some_iff_mem hnodup).mpr hmem, rfl⟩
  · rintro ⟨value, hfind, rfl⟩
    exact ⟨(name, value), (Variables.find?_eq_some_iff_mem hnodup).mp hfind, rfl⟩

theorem map_toText_eq_iff {value value' : Option Decimal} :
    value.map Decimal.toText = value'.map Decimal.toText ↔
      Option.Rel (fun a b => a.equals b = true) value value' := by
  cases value with
  | none =>
    cases value' with
    | none => exact ⟨fun _ => .none, fun _ => rfl⟩
    | some b => exact ⟨nofun, nofun⟩
  | some a =>
    cases value' with
    | none => exact ⟨nofun, nofun⟩
    | some b =>
      rw [Option.map_some, Option.map_some, Option.some.injEq, Decimal.toText_eq_iff]
      constructor
      · exact fun h => .some h
      · rintro ⟨h⟩
        exact h

/-- Variables with the same names, and numerically equal values. -/
def SameNumbers (vars vars' : Variables) : Prop :=
  ∀ name, Option.Rel (fun a b => a.equals b = true) (vars.find? name) (vars'.find? name)

/-- Registries of distinct names have the same pairs exactly if the names have
numerically equal values. -/
theorem perm_map_keyPair_iff {caseSensitive : Bool} {vars vars' : Variables}
    (hnodup : vars.names.Nodup) (hnodup' : vars'.names.Nodup) :
    ((boundTo caseSensitive vars).entries.map keyPair).Perm
        ((boundTo caseSensitive vars').entries.map keyPair) ↔ SameNumbers vars vars' := by
  have hpairs : ∀ vars : Variables, vars.names.Nodup →
      ((boundTo caseSensitive vars).entries.map keyPair).Nodup := by
    intro vars hnodup
    refine List.Nodup.of_map Prod.fst ?_
    rw [List.map_map]
    exact (map_name_boundTo caseSensitive vars).symm ▸ hnodup
  rw [List.perm_ext_iff_of_nodup (hpairs vars hnodup) (hpairs vars' hnodup'), Prod.forall]
  refine forall_congr' fun name => ?_
  rw [← map_toText_eq_iff, Option.ext_iff]
  exact forall_congr' fun printed => by
    rw [mem_map_keyPair_iff hnodup, mem_map_keyPair_iff hnodup']

/-- Two requests have one key exactly if they have the same text, and bind
the same names to numerically equal values.  The names are plain, and so are
the texts, which is true of every text with tokens. -/
theorem cacheKey_eq_iff {caseSensitive : Bool} {text text' : String}
    {constants constants' : Variables} {bound bound' : Constants}
    (hbound : bindConstants caseSensitive constants = .ok bound)
    (hbound' : bindConstants caseSensitive constants' = .ok bound')
    (htext : IsPlainText text) (htext' : IsPlainText text')
    (hnames : HasPlainNames constants) (hnames' : HasPlainNames constants') :
    cacheKey text bound = cacheKey text' bound' ↔
      text = text' ∧
        SameNumbers (constants.fold caseSensitive) (constants'.fold caseSensitive) := by
  obtain ⟨rfl, hnodup⟩ := bindConstants_eq_ok hbound
  obtain ⟨rfl, hnodup'⟩ := bindConstants_eq_ok hbound'
  have hplain : ∀ vars : Variables, HasPlainNames vars →
      ∀ entry ∈ (boundTo caseSensitive vars).entries, IsPlainName entry.name := by
    intro vars hvars entry hmem
    exact hvars _ (map_name_boundTo caseSensitive vars ▸ List.mem_map_of_mem hmem)
  have hdistinct := (map_name_boundTo caseSensitive (constants.fold caseSensitive)).symm ▸ hnodup
  rw [cacheKey_eq_iff_sorted htext htext' (hplain _ (hnames.fold caseSensitive))
      (hplain _ (hnames'.fold caseSensitive)),
    map_keyPair_sortedEntries_eq_iff hdistinct, perm_map_keyPair_iff hnodup hnodup']

/-! ## Accepted requests -/

/-- The constants of an accepted request have been bound. -/
theorem exists_bound_of_build {engine : Engine} {text : String} {constants : Option Variables}
    (h : (engine.build text constants).1.isOk = true) :
    ∃ bound,
      bindConstants engine.options.caseSensitive (constants.getD .empty) = .ok bound := by
  rw [build] at h
  split at h
  · cases h
  · cases hbound : bindConstants engine.options.caseSensitive (constants.getD .empty) with
    | error e =>
      rw [hbound] at h
      cases h
    | ok bound => exact ⟨bound, rfl⟩

/-- Two accepted requests have one key exactly if they have the same text, and
bind the same names to numerically equal values.  The engine may have changed
between the two; its case policy never does. -/
theorem key_tells_request {engine later : Engine} {text text' : String}
    {constants constants' : Option Variables}
    (hpolicy : later.options.caseSensitive = engine.options.caseSensitive)
    (haccepted : (engine.build text constants).1.isOk = true)
    (haccepted' : (later.build text' constants').1.isOk = true)
    (htext : IsPlainText text) (htext' : IsPlainText text')
    (hnames : HasPlainNames (constants.getD .empty))
    (hnames' : HasPlainNames (constants'.getD .empty)) :
    ∃ bound bound',
      bindConstants engine.options.caseSensitive (constants.getD .empty) = .ok bound ∧
      bindConstants later.options.caseSensitive (constants'.getD .empty) = .ok bound' ∧
      (cacheKey text bound = cacheKey text' bound' ↔
        text = text' ∧
          SameNumbers ((constants.getD .empty).fold engine.options.caseSensitive)
            ((constants'.getD .empty).fold engine.options.caseSensitive)) := by
  obtain ⟨bound, hbound⟩ := exists_bound_of_build haccepted
  obtain ⟨bound', hbound'⟩ := exists_bound_of_build haccepted'
  refine ⟨bound, bound', hbound, hbound', ?_⟩
  rw [hpolicy] at hbound'
  exact cacheKey_eq_iff hbound hbound' htext htext' hnames hnames'

/-- An engine without functions and constants of its own. -/
def bare : Engine := .new { defaultFunctions := false, defaultConstants := false } .zero

/-- A value of `K` with a trailing zero. -/
def trailingZero : Variables := ⟨[("K", ⟨false, 150, 2, by decide, by decide⟩)]⟩

/-- The same number, and the same name in small letters. -/
def withoutZero : Variables := ⟨[("k", ⟨false, 15, 1, by decide, by decide⟩)]⟩

theorem key_tells_request_of_trailing_zero :
    (bare.build "x + k" (some trailingZero)).1.isOk = true ∧
      (bare.build "x + k" (some withoutZero)).1.isOk = true ∧
      IsPlainText "x + k" ∧ HasPlainNames trailingZero ∧ HasPlainNames withoutZero ∧
      ∃ bound bound', bindConstants false trailingZero = .ok bound ∧
        bindConstants false withoutZero = .ok bound' ∧
        cacheKey "x + k" bound = cacheKey "x + k" bound' := by
  have haccepted : (bare.build "x + k" (some trailingZero)).1.isOk = true := by decide +kernel
  have haccepted' : (bare.build "x + k" (some withoutZero)).1.isOk = true := by decide +kernel
  have htext : IsPlainText "x + k" := by decide
  have hnames : HasPlainNames trailingZero := by decide
  have hnames' : HasPlainNames withoutZero := by decide
  refine ⟨haccepted, haccepted', htext, hnames, hnames', ?_⟩
  obtain ⟨bound, bound', hbound, hbound', hkey⟩ :=
    @key_tells_request bare bare _ _ _ _ rfl haccepted haccepted' htext htext hnames hnames'
  refine ⟨bound, bound', hbound, hbound', hkey.mpr ⟨rfl, ?_⟩⟩
  intro name
  have hfold : trailingZero.fold false = ⟨[("k", ⟨false, 150, 2, by decide, by decide⟩)]⟩ := rfl
  have hfold' : withoutZero.fold false = withoutZero := rfl
  change Option.Rel _ ((trailingZero.fold false).find? name) ((withoutZero.fold false).find? name)
  rw [hfold, hfold', withoutZero, Variables.find?, Variables.find?, List.lookup_cons,
    List.lookup_cons]
  split
  · exact .some (by decide)
  · exact .none

/-- One constant, whose name is written like two of them. -/
def commaInName : Variables := ⟨[("a:1,b", .ofInt64 2)]⟩

/-- The two constants. -/
def twoNames : Variables := ⟨[("a", .ofInt64 1), ("b", .ofInt64 2)]⟩

theorem key_tells_request_of_comma_in_name :
    (bare.build "a + b" (some commaInName)).1.isOk = true ∧
      (bare.build "a + b" (some twoNames)).1.isOk = true ∧
      ∃ bound bound', bindConstants false commaInName = .ok bound ∧
        bindConstants false twoNames = .ok bound' ∧
        cacheKey "a + b" bound = cacheKey "a + b" bound' ∧
        ¬SameNumbers (commaInName.fold false) (twoNames.fold false) := by
  refine ⟨by decide +kernel, by decide +kernel, boundTo false commaInName,
    boundTo false twoNames, rfl, rfl, ?_, ?_⟩
  · have hsorted : sortedEntries (boundTo false twoNames) = (boundTo false twoNames).entries :=
      List.mergeSort_of_pairwise (by decide)
    rw [← String.toList_inj, toList_cacheKey rfl, toList_cacheKey rfl, keyParts, keyParts, hsorted]
    decide +kernel
  · intro h
    have hnone : (commaInName.fold false).find? "a" = none := by decide
    have hsome : (twoNames.fold false).find? "a" = some (.ofInt64 1) := by decide
    have hrel := h "a"
    rw [hnone, hsome] at hrel
    cases hrel

end Engine

end FormulaEngine
