import FormulaEngine.CommandLine.Arguments
import Mathlib.Data.List.Basic

/-!
# The names of a command

A binding is read from the text of one argument, and its name is trimmed.  A
name that is left is not blank (`isBlank_of_readBinding`).  Bindings come into a
command in no other way: every step of the reading keeps `Reading.HasNames`, and
`allNamed_of_readArguments` is the whole reading.
-/

namespace FormulaEngine

namespace CommandLine

open Text

/-! ## One binding -/

theorem isBlankChar_of_mem_head? {chars : List Char} {c : Char}
    (h : c ∈ (chars.dropWhile isBlankChar).head?) : isBlankChar c = false := by
  have hhead := List.head?_dropWhile_not isBlankChar chars
  rw [Option.mem_def] at h
  rw [h] at hhead
  exact hhead

/-- What is left after trimming is not blank. -/
theorem isBlank_trimChars {chars : List Char} (h : (trimChars chars).isEmpty = false) :
    isBlank (String.ofList (trimChars chars)) = false := by
  rw [isBlank, String.toList_ofList, List.all_eq_false]
  unfold trimChars at h ⊢
  generalize (chars.dropWhile isBlankChar).reverse = backwards at h ⊢
  cases hrest : backwards.dropWhile isBlankChar with
  | nil =>
    rw [hrest] at h
    cases h
  | cons c rest =>
    refine ⟨c, by simp, ?_⟩
    have hc : c ∈ (backwards.dropWhile isBlankChar).head? := by simp [hrest]
    rw [isBlankChar_of_mem_head? hc]
    exact Bool.false_ne_true

theorem isBlank_of_readBinding {text : String} {binding : Binding}
    (h : readBinding text = .ok binding) : isBlank binding.1 = false := by
  unfold readBinding at h
  split at h
  · cases h
  · dsimp only at h
    split at h
    · cases h
    · rename_i hname
      split at h
      · cases h
        exact isBlank_trimChars (Bool.not_eq_true _ ▸ hname)
      · cases h

/-! ## All arguments -/

/-- All bindings of the list have names. -/
def AllNamed (bindings : List Binding) : Prop := ∀ binding ∈ bindings, isBlank binding.1 = false

theorem AllNamed.append_singleton {bindings : List Binding} (h : AllNamed bindings)
    {binding : Binding} (hbinding : isBlank binding.1 = false) :
    AllNamed (bindings ++ [binding]) :=
  List.forall_mem_append.mpr ⟨h, List.forall_mem_singleton.mpr hbinding⟩

namespace Reading

/-- All bindings so far have names. -/
structure HasNames (r : Reading) : Prop where
  vars : AllNamed r.vars
  constants : AllNamed r.constants

/-- If a step succeeds, all bindings have names after it. -/
def KeepsNames (result : Except UsageError Reading) : Prop :=
  ∀ after, result = .ok after → after.HasNames

variable {r : Reading} (h : r.HasNames)

include h

theorem keepsNames_ok : KeepsNames (.ok r) := by
  rintro _ ⟨⟩
  exact h

omit h in
theorem keepsNames_error (e : UsageError) : KeepsNames (.error e) := nofun

theorem setValue_keepsNames (option : ValueOption) (value : String) :
    KeepsNames (r.setValue option value) := by
  unfold setValue
  split
  · split
    · rename_i binding hbinding
      have hname := isBlank_of_readBinding hbinding
      exact keepsNames_ok ⟨h.vars.append_singleton hname, h.constants⟩
    · exact keepsNames_error _
  · split
    · rename_i binding hbinding
      have hname := isBlank_of_readBinding hbinding
      exact keepsNames_ok ⟨h.vars, h.constants.append_singleton hname⟩
    · exact keepsNames_error _
  · split
    · exact keepsNames_error _
    · split
      · exact keepsNames_ok ⟨h.vars, h.constants⟩
      · exact keepsNames_error _
  · split
    · exact keepsNames_error _
    · split
      · exact keepsNames_ok ⟨h.vars, h.constants⟩
      · exact keepsNames_error _

theorem settle_keepsNames : KeepsNames r.settle := by
  unfold settle
  split
  · exact keepsNames_ok h
  · exact keepsNames_error _
  · rename_i option value _
    exact setValue_keepsNames (r := { r with pending := none }) ⟨h.vars, h.constants⟩ option value

theorem setFlag_keepsNames (flag : FlagOption) : KeepsNames (r.setFlag flag) := by
  unfold setFlag
  cases flag with
  | noOptimize =>
    dsimp only
    split
    · exact keepsNames_error _
    · exact keepsNames_ok ⟨h.vars, h.constants⟩
  | caseSensitive =>
    dsimp only
    split
    · exact keepsNames_error _
    · exact keepsNames_ok ⟨h.vars, h.constants⟩
  | help | version => exact keepsNames_error _

theorem takeValued_keepsNames (option : ValueOption) (attached : Option String) :
    KeepsNames (r.takeValued option attached) := by
  unfold takeValued
  cases hsettle : r.settle with
  | error e => exact keepsNames_error e
  | ok settled =>
    have hsettled := settle_keepsNames h settled hsettle
    cases attached with
    | none => exact keepsNames_ok ⟨hsettled.vars, hsettled.constants⟩
    | some value => exact setValue_keepsNames hsettled option value

theorem takeFlag_keepsNames (flag : FlagOption) : KeepsNames (r.takeFlag flag) := by
  unfold takeFlag
  cases hsettle : r.settle with
  | error e => exact keepsNames_error e
  | ok settled => exact setFlag_keepsNames (settle_keepsNames h settled hsettle) flag

theorem takeLong_keepsNames (chars : List Char) : KeepsNames (r.takeLong chars) := by
  unfold takeLong
  split
  rename_i name attached _
  split
  · exact keepsNames_error _
  · exact takeValued_keepsNames h _ _
  · exact keepsNames_error _
  · exact takeFlag_keepsNames h _

theorem takeShort_keepsNames (letters : List Char) : KeepsNames (r.takeShort letters) := by
  induction letters generalizing r with
  | nil => exact keepsNames_ok h
  | cons letter rest ih =>
    unfold takeShort
    split
    · exact keepsNames_error _
    · rename_i flag _
      cases hflag : r.takeFlag flag with
      | error e => exact keepsNames_error e
      | ok next => exact ih (takeFlag_keepsNames h flag next hflag)
    · split <;> exact takeValued_keepsNames h _ _

theorem takeFormula_keepsNames (text : String) : KeepsNames (r.takeFormula text) := by
  unfold takeFormula
  split
  · exact keepsNames_error _
  · cases hsettle : r.settle with
    | error e => exact keepsNames_error e
    | ok settled =>
      have hsettled := settle_keepsNames h settled hsettle
      exact keepsNames_ok ⟨hsettled.vars, hsettled.constants⟩

theorem takeOther_keepsNames (text : String) : KeepsNames (r.takeOther text) := by
  unfold takeOther
  split
  · exact keepsNames_ok ⟨h.vars, h.constants⟩
  · exact takeFormula_keepsNames h text

theorem take_keepsNames (text : String) : KeepsNames (r.take text) := by
  unfold take
  split
  · exact takeLong_keepsNames h _
  · exact takeOther_keepsNames h text
  · exact takeShort_keepsNames h _
  · exact takeOther_keepsNames h text

theorem takeFormulas_keepsNames (texts : List String) : KeepsNames (r.takeFormulas texts) := by
  induction texts generalizing r with
  | nil => exact keepsNames_ok h
  | cons text rest ih =>
    unfold takeFormulas
    cases htake : r.takeFormula text with
    | error e => exact keepsNames_error e
    | ok next => exact ih (takeFormula_keepsNames h text next htake)

theorem takeAll_keepsNames (texts : List String) : KeepsNames (r.takeAll texts) := by
  induction texts generalizing r with
  | nil => exact keepsNames_ok h
  | cons text rest ih =>
    unfold takeAll
    split
    · exact takeFormulas_keepsNames h rest
    · cases htake : r.take text with
      | error e => exact keepsNames_error e
      | ok next => exact ih (take_keepsNames h text next htake)

end Reading

/-- All variables and constants of a command have names. -/
theorem allNamed_of_readArguments {arguments : List String} {command : Command}
    (h : readArguments arguments = .ok command) :
    AllNamed command.vars ∧ AllNamed command.constants := by
  have hstart : Reading.HasNames {} := ⟨nofun, nofun⟩
  unfold readArguments at h
  split at h
  · cases h
  · rename_i r hr
    have hnames := Reading.takeAll_keepsNames hstart arguments r hr
    split at h
    · cases h
    · rename_i settled hsettled
      have hsettledNames := Reading.settle_keepsNames hnames settled hsettled
      split at h
      · cases h
      · cases h
        exact ⟨hsettledNames.vars, hsettledNames.constants⟩

end CommandLine

end FormulaEngine
