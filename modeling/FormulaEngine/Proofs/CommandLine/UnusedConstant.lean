import FormulaEngine.Proofs.CommandLine.Evaluation
import FormulaEngine.Proofs.CommandLine.Names

/-!
# Constants that are not used

The first bound constant takes a command from one path to the other, where the
constants of the engine are added in another way and nobody looks at the names
of the variables.

* `find?_fold_withEngineConstants`: on both paths a formula finds the same
  constants of the engine.
* `VariablesAreFree.accept`: a calculation accepts variables whose names are
  distinct and free.
* `AddsConstant.run`: a constant more that is not used does not change the
  outcome.

`unused_constant_changes_nothing` states it for commands that are read from
arguments.  The condition on the variables cannot be left out:
`reserved_variable_passes_with_constant`.
-/

namespace FormulaEngine

open Text

namespace CommandLine

namespace Command

open Engine

/-! ## The constants of the engine -/

theorem shadows_iff {caseSensitive : Bool} {vars : Variables} {name : String} :
    shadows caseSensitive vars name = true ↔
      canonical caseSensitive name ∈ vars.names.map (canonical caseSensitive) := by
  rw [shadows, List.any_eq_true, List.mem_map]
  simp only [beq_iff_eq]

/-- The bindings of the constants that no variable shadows. -/
def unshadowed (caseSensitive : Bool) (vars : Variables) (entries : List (Entry Decimal)) :
    List (String × Decimal) :=
  (entries.filter fun entry => !shadows caseSensitive vars entry.name).map
    fun entry => (entry.name, entry.content)

/-- Entries with new names are added behind the others. -/
theorem bindings_foldl_insert {caseSensitive : Bool} {vars all : Variables}
    {entries : List (Entry Decimal)} (hdistinct : (entries.map Entry.name).Nodup)
    (hnew : ∀ entry ∈ entries, shadows caseSensitive vars entry.name = false →
      entry.name ∉ all.names) :
    (entries.foldl (fun all entry => if shadows caseSensitive vars entry.name then all
      else all.insert entry.name entry.content) all).bindings =
      all.bindings ++ unshadowed caseSensitive vars entries := by
  induction entries generalizing all with
  | nil => exact (List.append_nil all.bindings).symm
  | cons entry entries ih =>
    obtain ⟨hfirst, hrest⟩ := List.nodup_cons.mp hdistinct
    obtain ⟨hentry, hentries⟩ := List.forall_mem_cons.mp hnew
    rw [List.foldl_cons, unshadowed, List.filter_cons]
    cases hshadow : shadows caseSensitive vars entry.name with
    | true => exact ih hrest hentries
    | false =>
      have hinsert : (all.insert entry.name entry.content).bindings =
          all.bindings ++ [(entry.name, entry.content)] :=
        Variables.insertBinding_of_new (hentry hshadow)
      have hstillNew : ∀ other ∈ entries, shadows caseSensitive vars other.name = false →
          other.name ∉ (all.insert entry.name entry.content).names := by
        intro other hother hfree hmem
        rw [Variables.names, hinsert, List.map_append, List.mem_append] at hmem
        rcases hmem with hold | hsame
        · exact hentries other hother hfree hold
        · rw [List.map_singleton, List.mem_singleton] at hsame
          exact hfirst (List.mem_map.mpr ⟨other, hother, hsame⟩)
      rw [if_neg Bool.false_ne_true, ih hrest hstillNew, hinsert, List.append_assoc]
      rfl

theorem find?_filter_of_imp {α : Type} {p q : α → Bool} {list : List α}
    (h : ∀ a ∈ list, q a = true → p a = true) : (list.filter p).find? q = list.find? q := by
  induction list with
  | nil => rfl
  | cons a list ih =>
    obtain ⟨ha, hlist⟩ := List.forall_mem_cons.mp h
    rw [List.filter_cons]
    by_cases hq : q a = true
    · rw [if_pos (ha hq), List.find?_cons_of_pos hq, List.find?_cons_of_pos hq]
    · rw [List.find?_cons_of_neg hq]
      split
      · rw [List.find?_cons_of_neg hq, ih hlist]
      · exact ih hlist

theorem lookup_map_entries (entries : List (Entry Decimal)) (name : String) :
    (entries.map fun entry => (entry.name, entry.content)).lookup name =
      (entries.find? fun entry => entry.name == name).map Entry.content := by
  induction entries with
  | nil => rfl
  | cons entry entries ih =>
    rw [List.map_cons, List.lookup_cons, List.find?_cons, ih]
    by_cases hname : name = entry.name
    · simp [hname]
    · rw [beq_false_of_ne hname, beq_false_of_ne (Ne.symm hname)]

section EngineConstants

variable {caseSensitive : Bool} {constants : Constants}
  (hdistinct : (constants.entries.map Entry.name).Nodup)

include hdistinct

/-- The constants that are not shadowed follow the variables. -/
theorem bindings_withEngineConstants (vars : Variables) :
    (withEngineConstants caseSensitive constants vars).bindings =
      vars.bindings ++ unshadowed caseSensitive vars constants.entries := by
  refine bindings_foldl_insert hdistinct fun entry _ hfree hmem => ?_
  rw [shadows_iff.mpr (List.mem_map_of_mem hmem)] at hfree
  cases hfree

variable (hcanonical : ∀ entry ∈ constants.entries,
  canonical caseSensitive entry.name = entry.name)

include hcanonical

omit hdistinct in
theorem map_foldBinding_unshadowed (vars : Variables) :
    (unshadowed caseSensitive vars constants.entries).map (Variables.foldBinding caseSensitive) =
      unshadowed caseSensitive vars constants.entries := by
  refine (List.map_congr_left fun binding hbinding => ?_).trans (List.map_id _)
  obtain ⟨entry, hentry, rfl⟩ := List.mem_map.mp hbinding
  exact Prod.ext (hcanonical entry (List.mem_of_mem_filter hentry)) rfl

/-- No constant that is added clashes with a variable. -/
theorem nodup_names_withEngineConstants {vars : Variables}
    (hvars : (vars.names.map (canonical caseSensitive)).Nodup) :
    ((withEngineConstants caseSensitive constants vars).names.map
      (canonical caseSensitive)).Nodup := by
  rw [← Variables.map_fst_foldBinding, bindings_withEngineConstants hdistinct, List.map_append,
    map_foldBinding_unshadowed hcanonical, List.map_append, Variables.map_fst_foldBinding]
  refine hvars.append ?_ fun name hname hconstant => ?_
  · rw [unshadowed, List.map_map]
    exact hdistinct.sublist (List.filter_sublist.map _)
  · obtain ⟨binding, hbinding, rfl⟩ := List.mem_map.mp hconstant
    obtain ⟨entry, hentry, rfl⟩ := List.mem_map.mp hbinding
    obtain ⟨hmem, hfree⟩ := List.mem_filter.mp hentry
    rw [← hcanonical entry hmem] at hname
    rw [shadows_iff.mpr hname] at hfree
    cases hfree

omit hdistinct in
/-- A name that no variable has is not shadowed. -/
theorem lookup_unshadowed {vars : Variables} {name : String}
    (hname : name ∉ vars.names.map (canonical caseSensitive)) :
    (unshadowed caseSensitive vars constants.entries).lookup name =
      (constants.entry? name).map Entry.content := by
  have hfree : ∀ entry ∈ constants.entries, (entry.name == name) = true →
      (!shadows caseSensitive vars entry.name) = true := by
    intro entry hentry hsame
    rw [Bool.not_eq_true', Bool.eq_false_iff, ne_eq, shadows_iff, hcanonical entry hentry,
      beq_iff_eq.mp hsame]
    exact hname
  rw [unshadowed, lookup_map_entries, find?_filter_of_imp hfree, Registry.entry?]

/-- A formula that is called on this path finds the folded variables first, and
then the constants, as after a calculation. -/
theorem find?_fold_withEngineConstants {vars : Variables}
    (hvars : (vars.names.map (canonical caseSensitive)).Nodup) (name : String) :
    ((withEngineConstants caseSensitive constants vars).fold caseSensitive).find? name =
      ((vars.fold caseSensitive).find? name).or
        ((constants.entry? name).map Entry.content) := by
  rw [Variables.find?_fold (nodup_names_withEngineConstants hdistinct hcanonical hvars),
    bindings_withEngineConstants hdistinct, List.map_append,
    map_foldBinding_unshadowed hcanonical, List.lookup_append, ← Variables.find?_fold hvars]
  cases hname : (vars.fold caseSensitive).find? name with
  | some value => rfl
  | none =>
    rw [lookup_unshadowed hcanonical]
    intro hmem
    have hsome := Variables.isSome_find?_iff.mpr
      (Variables.mem_names_fold.mpr (List.mem_map.mp hmem))
    rw [hname] at hsome
    cases hsome

end EngineConstants

/-! ## Commands with a constant more -/

/-- No two names of variables have the same canonical form, and none is that of
a function or a constant of the engine. -/
structure VariablesAreFree (command : Command) (engine : Engine) : Prop where
  distinct : ((Variables.ofList command.vars).names.map (canonical command.caseSensitive)).Nodup
  free : ∀ name ∈ (Variables.ofList command.vars).names,
    engine.functions.find? name = none ∧ engine.constants.find? name = none

theorem checkName_of_free {engine : Engine} {name : String} (hname : isBlank name = false)
    (hfunction : engine.functions.find? name = none)
    (hconstant : engine.constants.find? name = none) : engine.checkName name = .ok () := by
  rw [Registry.find?_eq, hname, if_neg Bool.false_ne_true] at hconstant
  rw [checkName, Registry.canonicalName, hname, if_neg Bool.false_ne_true]
  dsimp only
  rw [hconstant, hfunction]
  rfl

variable {command : Command} {draw : Decimal}

theorem entries_new_distinct (command : Command) (draw : Decimal) :
    ((Engine.new command.options draw).constants.entries.map Entry.name).Nodup := by
  have hnames : ∀ caseSensitive,
      ((Builtin.constantRegistry caseSensitive).entries.map Entry.name).Nodup := by decide +kernel
  exact hnames command.caseSensitive

/-- A calculation accepts such variables, if they have names. -/
theorem VariablesAreFree.accept (h : command.VariablesAreFree (.new command.options draw))
    (hnames : AllNamed command.vars) : ∃ accepted,
    (Engine.new command.options draw).acceptVariables (.ofList command.vars) = .ok accepted := by
  refine ⟨_, acceptVariables_eq_ok_iff.mpr ⟨h.distinct, fun name hname => ?_, rfl⟩⟩
  obtain ⟨original, horiginal, rfl⟩ := Variables.mem_names_fold.mp hname
  obtain ⟨hfunction, hconstant⟩ := h.free original horiginal
  obtain ⟨binding, hbinding, rfl⟩ :=
    List.mem_map.mp ((Variables.names_ofList command.vars).2 original horiginal)
  refine checkName_of_free ((isBlank_canonical _ _).trans (hnames binding hbinding)) ?_ ?_
  · exact (Registry.find?_canonical _ _).trans hfunction
  · exact (Registry.find?_canonical _ _).trans hconstant

/-- The other command has one more constant and is the same otherwise. -/
structure AddsConstant (command : Command) (binding : Binding) (other : Command) : Prop where
  constants : WithOneMore binding command.constants other.constants
  same : other = { command with constants := other.constants }

theorem isEmpty_ofList {bindings : List (String × Decimal)} (h : bindings ≠ []) :
    (Variables.ofList bindings).isEmpty = false := by
  obtain ⟨binding, hbinding⟩ := List.exists_mem_of_ne_nil bindings h
  have hname := Variables.mem_names_ofList (List.mem_map_of_mem hbinding)
  obtain ⟨other, hother, _⟩ := List.mem_map.mp hname
  rw [Variables.isEmpty, List.isEmpty_eq_false_iff]
  exact List.ne_nil_of_mem hother

theorem operands_of_constants {engine : Engine} (h : command.constants ≠ []) :
    command.operands engine =
      (bindConstants engine.options.caseSensitive (.ofList command.constants)).map fun bound =>
        (withEngineConstants command.caseSensitive engine.constants (.ofList command.vars),
          bound) := by
  rw [operands, isEmpty_ofList h, if_neg Bool.false_ne_true]

/-- A command that builds has the same operands on the engine of another one
that differs in its constants only. -/
theorem AddsConstant.operands {other : Command} {binding : Binding}
    (h : command.AddsConstant binding other) {engine : Engine}
    (hpolicy : engine.options.caseSensitive = command.caseSensitive) :
    other.operands engine =
      (bindConstants command.caseSensitive (.ofList other.constants)).map fun bound =>
        (withEngineConstants command.caseSensitive engine.constants (.ofList command.vars),
          bound) := by
  rw [operands_of_constants h.constants.ne_nil, hpolicy, h.same]

/-- A constant of no use changes no outcome. -/
theorem AddsConstant.run {other : Command} {binding : Binding}
    (h : command.AddsConstant binding other) (hvars : AllNamed command.vars)
    (hconstants : AllNamed other.constants)
    (hnew : ∀ constant ∈ command.constants,
      canonical command.caseSensitive constant.1 ≠ canonical command.caseSensitive binding.1)
    (hunused : ∀ name ∈ namesIn ⟨command.options.decimalSeparator⟩ command.formula,
      canonical command.caseSensitive name ≠ canonical command.caseSensitive binding.1)
    (hfree : command.constants = [] → command.VariablesAreFree (.new command.options draw)) :
    other.run draw = command.run draw := by
  have hoptions : other.options = command.options := by
    rw [h.same]
    rfl
  have hformula : other.formula = command.formula := by rw [h.same]
  rw [run_eq, run_eq, hoptions, hformula]
  by_cases hblank : isBlank command.formula = true
  · rw [if_pos hblank, if_pos hblank]
  · have hother : other.operands (.new command.options draw) = _ := h.operands rfl
    rw [if_neg hblank, if_neg hblank, hother]
    -- The names in the formula have the same bound constants in both commands.
    have houtcome {vars : Variables} {entries entries' : List (Entry Decimal)}
        (hentries : WithOneMore
          (boundEntry (Variables.foldBinding command.caseSensitive binding)) entries entries') :
        (Engine.new command.options draw).outcome command.formula vars
            ⟨command.caseSensitive, entries'⟩ =
          (Engine.new command.options draw).outcome command.formula vars
            ⟨command.caseSensitive, entries⟩ :=
      outcome_congr_constants fun name hname =>
        Registry.find?_withOneMore hentries (hunused name hname)
    rcases bindConstants_withOneMore h.constants hnew hconstants with
      ⟨e, herror, herror'⟩ | ⟨entries, entries', hok, hok', hentries⟩
    · have hsome : command.constants ≠ [] := by
        intro hnone
        rw [hnone] at herror
        exact absurd ((bindConstants_empty _).symm.trans herror) nofun
      have hoperands : command.operands (.new command.options draw) = .error e := by
        rw [operands_of_constants hsome]
        exact congrArg (Except.map _) herror
      rw [herror', hoperands]
      rfl
    · rw [hok']
      refine (houtcome hentries).trans ?_
      by_cases hnone : command.constants = []
      · -- This command calculates, and the other one builds.
        obtain ⟨accepted, haccept⟩ := (hfree hnone).accept hvars
        have hoperands : command.operands (.new command.options draw) =
            .ok (accepted, ⟨command.caseSensitive, entries⟩) := by
          rw [hnone] at hok
          cases (bindConstants_empty _).symm.trans hok
          rw [Command.operands, hnone]
          exact congrArg (Except.map _) haccept
        have htidy := Engine.isTidy_new command.options draw
        rw [hoperands]
        refine outcome_congr fun name => ?_
        exact (find?_fold_withEngineConstants (entries_new_distinct command draw)
          (fun entry hentry => (htidy entry hentry).2) (hfree hnone).distinct name).trans
            (find?_fold_accepted htidy rfl haccept name).symm
      · -- Both commands build.
        have hoperands : command.operands (.new command.options draw) =
            .ok (withEngineConstants command.caseSensitive
              (Engine.new command.options draw).constants (.ofList command.vars),
              ⟨command.caseSensitive, entries⟩) := by
          rw [operands_of_constants hnone]
          exact congrArg (Except.map _) hok
        rw [hoperands]

end Command

/-- A constant that is not used changes nothing.  A command that was read from
arguments may differ from another one in a constant whose name does not stand in
the formula and is not that of another constant.  Both print the same value, or
fail with the same error.  If the constant is the only one, the names of the
variables must be distinct and free: names are compared under the case
policy. -/
theorem unused_constant_changes_nothing (draw : Decimal) {arguments : List String}
    {command other : Command} {binding : Binding} (hread : readArguments arguments = .ok other)
    (hadds : command.AddsConstant binding other)
    (hnew : ∀ constant ∈ command.constants,
      canonical command.caseSensitive constant.1 ≠ canonical command.caseSensitive binding.1)
    (hunused : ∀ name ∈ namesIn ⟨command.options.decimalSeparator⟩ command.formula,
      canonical command.caseSensitive name ≠ canonical command.caseSensitive binding.1)
    (hfree : command.constants = [] →
      command.VariablesAreFree (Engine.new command.options draw)) :
    other.run draw = command.run draw := by
  obtain ⟨hvars, hconstants⟩ := allNamed_of_readArguments hread
  rw [hadds.same] at hvars
  exact hadds.run hvars hconstants hnew hunused hfree

/-- Two variables and no constant. -/
def largerOfTwo : Command :=
  { vars := [("X", .ofInt64 2), ("y", .ofInt64 3)]
    constants := []
    mode := .interpreted
    optimize := true
    caseSensitive := false
    repetitions := 2
    formula := "max(x, Y) * 2 * (PI > 3)" }

theorem unused_constant_changes_nothing_of_largerOfTwo :
    let other : Command := { largerOfTwo with constants := [("K", .one)] }
    readArguments ["-v", "X=2", "-c", "K=1", "--var=y=3", "--mode", "interpreted", "--repeat=2",
        "max(x, Y) * 2 * (PI > 3)"] = .ok other ∧
      largerOfTwo.AddsConstant ("K", .one) other ∧
      (∀ name ∈ namesIn ⟨largerOfTwo.options.decimalSeparator⟩ largerOfTwo.formula,
        canonical largerOfTwo.caseSensitive name ≠ canonical largerOfTwo.caseSensitive "K") ∧
      largerOfTwo.VariablesAreFree (Engine.new largerOfTwo.options .zero) ∧
      other.run .zero = largerOfTwo.run .zero ∧
      (largerOfTwo.run .zero).toOption = some (.ofInt64 6) := by
  intro other
  have hread : readArguments ["-v", "X=2", "-c", "K=1", "--var=y=3", "--mode", "interpreted",
      "--repeat=2", "max(x, Y) * 2 * (PI > 3)"] = .ok other := by rfl
  have hadds : largerOfTwo.AddsConstant ("K", .one) other := ⟨⟨[], [], rfl, rfl⟩, rfl⟩
  have hunused : ∀ name ∈ namesIn ⟨largerOfTwo.options.decimalSeparator⟩ largerOfTwo.formula,
      canonical largerOfTwo.caseSensitive name ≠ canonical largerOfTwo.caseSensitive "K" := by
    decide +kernel
  have hnames : ∀ name ∈ (Variables.ofList largerOfTwo.vars).names,
      ((Engine.new largerOfTwo.options .zero).functions.find? name).isNone = true ∧
        ((Engine.new largerOfTwo.options .zero).constants.find? name).isNone = true := by
    decide +kernel
  have hfree : largerOfTwo.VariablesAreFree (Engine.new largerOfTwo.options .zero) := by
    refine ⟨by decide +kernel, fun name hname => ?_⟩
    obtain ⟨hfunction, hconstant⟩ := hnames name hname
    exact ⟨Option.isNone_iff_eq_none.mp hfunction, Option.isNone_iff_eq_none.mp hconstant⟩
  exact ⟨hread, hadds, hunused, hfree,
    unused_constant_changes_nothing .zero hread hadds nofun hunused fun _ => hfree,
    by decide +kernel⟩

/-- A variable with the name of a constant of the engine. -/
def reservedVariable : Command :=
  { vars := [("pi", .ofInt64 3)]
    constants := []
    mode := .compiled
    optimize := true
    caseSensitive := false
    repetitions := 1
    formula := "pi * 2" }

/-- The variable is refused, unless a constant is bound that has nothing to do
with it. -/
theorem reserved_variable_passes_with_constant :
    let other : Command := { reservedVariable with constants := [("k", .one)] }
    readArguments ["-v", "pi=3", "pi * 2"] = .ok reservedVariable ∧
      readArguments ["-c", "k=1", "-v", "pi=3", "pi * 2"] = .ok other ∧
      (reservedVariable.vars.map fun binding => foldCase binding.1).Nodup ∧
      foldCase "k" ∉ reservedVariable.vars.map (fun binding => foldCase binding.1) ∧
      foldCase "k" ∉ (namesIn ⟨'.'⟩ reservedVariable.formula).map foldCase ∧
      (Engine.new reservedVariable.options .zero).functions.find? "k" = none ∧
      (Engine.new reservedVariable.options .zero).constants.find? "k" = none ∧
      ((reservedVariable.run .zero).mapError fun failure => failure.cause.code) =
        .error "InvalidArgument" ∧
      (other.run .zero).toOption = some (.ofInt64 6) := by
  intro other
  exact ⟨by rfl, by rfl, by decide, by decide, by decide +kernel,
    Option.isNone_iff_eq_none.mp (by decide +kernel),
    Option.isNone_iff_eq_none.mp (by decide +kernel), by decide +kernel, by decide +kernel⟩

end CommandLine

end FormulaEngine
