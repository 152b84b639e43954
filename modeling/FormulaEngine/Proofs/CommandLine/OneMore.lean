import FormulaEngine.Proofs.Engine.Acceptance
import FormulaEngine.Proofs.Engine.Building

/-!
# One more constant

A request may bind one constant more than another one, under a name that has no
other value.  The bindings then differ in one place only (`WithOneMore`), and so
do the folded bindings and the registry that is made of them.

* `ofList_withOneMore` and `fold_withOneMore`: the bindings of variables.
* `bindConstants_withOneMore`: the bound constants, which are refused for a
  clash of the same names.
* `prepare_congr_constants`: two tables of constants prepare a text alike if
  they have the same constants under the names that stand in it.
-/

namespace FormulaEngine

open Text

/-! ## Lists -/

/-- The second list has one member more, in any place. -/
def WithOneMore {α : Type} (a : α) (list list' : List α) : Prop :=
  ∃ before after, list = before ++ after ∧ list' = before ++ a :: after

namespace WithOneMore

variable {α β : Type} {a : α} {list list' : List α}

theorem map (h : WithOneMore a list list') (f : α → β) :
    WithOneMore (f a) (list.map f) (list'.map f) := by
  obtain ⟨before, after, rfl, rfl⟩ := h
  exact ⟨before.map f, after.map f, List.map_append, List.map_append⟩

theorem cons (h : WithOneMore a list list') (b : α) :
    WithOneMore a (b :: list) (b :: list') := by
  obtain ⟨before, after, rfl, rfl⟩ := h
  exact ⟨b :: before, after, rfl, rfl⟩

theorem ne_nil (h : WithOneMore a list list') : list' ≠ [] := by
  obtain ⟨before, after, _, rfl⟩ := h
  exact List.append_ne_nil_of_right_ne_nil before (List.cons_ne_nil a after)

/-- A search that passes over the new member finds the same. -/
theorem find?_eq (h : WithOneMore a list list') {p : α → Bool} (hp : p a = false) :
    list'.find? p = list.find? p := by
  obtain ⟨before, after, rfl, rfl⟩ := h
  rw [List.find?_append, List.find?_append, List.find?_cons_of_neg (by simp [hp])]

end WithOneMore

namespace Variables

/-! ## Bindings -/

theorem insertBinding_of_new {name : String} {value : Decimal}
    {bindings : List (String × Decimal)} (h : name ∉ bindings.map Prod.fst) :
    insertBinding name value bindings = bindings ++ [(name, value)] := by
  induction bindings with
  | nil => rfl
  | cons binding bindings ih =>
    rw [List.map_cons, List.mem_cons, not_or] at h
    have hname : ¬(binding.1 == name) = true := by simpa using fun heq => h.1 heq.symm
    rw [insertBinding, if_neg hname, ih h.2]
    rfl

variable {binding : String × Decimal} {bindings bindings' : List (String × Decimal)}

/-- Binding another name leaves the new one in its place. -/
theorem insertBinding_withOneMore (h : WithOneMore binding bindings bindings') {name : String}
    (hname : name ≠ binding.1) (value : Decimal) :
    WithOneMore binding (insertBinding name value bindings)
      (insertBinding name value bindings') := by
  obtain ⟨before, after, rfl, rfl⟩ := h
  induction before with
  | nil =>
    have hnot : ¬(binding.1 == name) = true := by simpa using hname.symm
    refine ⟨[], insertBinding name value after, rfl, ?_⟩
    rw [List.nil_append, insertBinding, if_neg hnot]
    rfl
  | cons first before ih =>
    rw [List.cons_append, List.cons_append, insertBinding, insertBinding]
    split
    · exact ⟨(name, value) :: before, after, rfl, rfl⟩
    · exact ih.cons first

theorem ofList_withOneMore (h : WithOneMore binding bindings bindings')
    (hnew : ∀ other ∈ bindings, other.1 ≠ binding.1) :
    WithOneMore binding (ofList bindings).bindings (ofList bindings').bindings := by
  obtain ⟨before, after, rfl, rfl⟩ := h
  induction after using List.reverseRecOn with
  | nil =>
    have hfresh : binding.1 ∉ (ofList before).bindings.map Prod.fst := by
      intro hmem
      obtain ⟨other, hother, hsame⟩ := List.mem_map.mp ((names_ofList before).2 _ hmem)
      exact hnew other (List.mem_append_left _ hother) hsame
    refine ⟨(ofList before).bindings, [], by rw [List.append_nil, List.append_nil], ?_⟩
    rw [ofList_append_singleton, insert, insertBinding_of_new hfresh]
  | append_singleton after last ih =>
    have hlast : last.1 ≠ binding.1 := hnew last (by simp)
    rw [← List.cons_append, ← List.append_assoc, ← List.append_assoc, ofList_append_singleton,
      ofList_append_singleton]
    have hnew' : ∀ other ∈ before ++ after, other.1 ≠ binding.1 := fun other hother =>
      hnew other (by rw [← List.append_assoc]; exact List.mem_append_left _ hother)
    exact insertBinding_withOneMore (ih hnew') hlast last.2

/-- The new binding under its canonical name is the difference between the
folded ones. -/
theorem fold_withOneMore {vars vars' : Variables}
    (h : WithOneMore binding vars.bindings vars'.bindings) {caseSensitive : Bool}
    (hnew : ∀ name ∈ vars.names, canonical caseSensitive name ≠ canonical caseSensitive binding.1) :
    WithOneMore (foldBinding caseSensitive binding) (vars.fold caseSensitive).bindings
      (vars'.fold caseSensitive).bindings := by
  cases caseSensitive with
  | true => exact h
  | false =>
    refine ofList_withOneMore (h.map (foldBinding false)) ?_
    rw [List.forall_mem_map]
    exact fun other hother => hnew other.1 (List.mem_map_of_mem hother)

/-! ## Clashes -/

theorem firstRepeated?_congr {seen seen' names : List String}
    (h : ∀ name ∈ names, name ∈ seen ↔ name ∈ seen') :
    firstRepeated? seen names = firstRepeated? seen' names := by
  induction names generalizing seen seen' with
  | nil => rfl
  | cons name names ih =>
    rw [List.forall_mem_cons] at h
    have hcontains : seen.contains name = seen'.contains name := by
      rw [Bool.eq_iff_iff, List.contains_iff_mem, List.contains_iff_mem, h.1]
    rw [firstRepeated?, firstRepeated?, hcontains]
    split
    · rfl
    · refine ih fun other hother => ?_
      rw [List.mem_cons, List.mem_cons, h.2 other hother]

theorem firstRepeated?_withOneMore {name : String} {names names' : List String}
    (h : WithOneMore name names names') (hnames : name ∉ names) {seen : List String}
    (hseen : name ∉ seen) : firstRepeated? seen names' = firstRepeated? seen names := by
  obtain ⟨before, after, rfl, rfl⟩ := h
  induction before generalizing seen with
  | nil =>
    have hnot : ¬seen.contains name = true := by simpa using hseen
    rw [List.nil_append, List.nil_append, firstRepeated?, if_neg hnot]
    refine firstRepeated?_congr fun other hother => ?_
    rw [List.mem_cons]
    exact or_iff_right fun hsame => hnames (by rw [← hsame]; exact hother)
  | cons first before ih =>
    rw [List.cons_append, List.mem_cons, not_or] at hnames
    have hseen' : name ∉ first :: seen := by
      rw [List.mem_cons, not_or]
      exact ⟨hnames.1, hseen⟩
    rw [List.cons_append, List.cons_append, firstRepeated?, firstRepeated?, ih hseen' hnames.2]

/-- A name that is unlike the others makes no clash. -/
theorem clash?_withOneMore {vars vars' : Variables}
    (h : WithOneMore binding vars.bindings vars'.bindings) {caseSensitive : Bool}
    (hnew : ∀ name ∈ vars.names, canonical caseSensitive name ≠ canonical caseSensitive binding.1) :
    vars'.clash? caseSensitive = vars.clash? caseSensitive := by
  refine firstRepeated?_withOneMore ((h.map Prod.fst).map (canonical caseSensitive)) ?_
    List.not_mem_nil
  intro hmem
  obtain ⟨name, hname, hsame⟩ := List.mem_map.mp hmem
  exact hnew name hname hsame

end Variables

namespace Engine

/-! ## Bound constants -/

/-- Constants under names that are not blank are bound. -/
theorem exists_bindAll {bound : Constants}
    (hopen : ∀ entry ∈ bound.entries, entry.isOverwritable = true)
    {bindings : List (String × Decimal)}
    (hnames : ∀ binding ∈ bindings, isBlank binding.1 = false) :
    ∃ after, bindAll bound bindings = .ok after := by
  induction bindings generalizing bound with
  | nil => exact ⟨bound, rfl⟩
  | cons binding bindings ih =>
    obtain ⟨name, value⟩ := binding
    rw [List.forall_mem_cons] at hnames
    obtain ⟨middle, hmiddle⟩ : ∃ middle, bound.register name value true = .ok middle :=
      ⟨_, Registry.register_eq_ok_iff.mpr ⟨hnames.1,
        fun old hold => hopen old (List.mem_of_find?_eq_some hold), rfl⟩⟩
    have hopen' : ∀ entry ∈ middle.entries, entry.isOverwritable = true := by
      obtain ⟨_, _, rfl⟩ := Registry.register_eq_ok_iff.mp hmiddle
      intro entry hentry
      rcases Registry.mem_putEntry hentry with rfl | hold
      · rfl
      · exact hopen entry hold
    rw [bindAll, hmiddle]
    exact ih hopen' hnames.2

theorem bindConstants_of_clash {caseSensitive : Bool} {constants : Variables} {name : String}
    (h : constants.clash? caseSensitive = some name) :
    bindConstants caseSensitive constants = .error (.duplicateName name) := by
  rw [bindConstants, h]

/-- Constants under names that are not blank are refused for a clash only. -/
theorem bindConstants_of_distinct {caseSensitive : Bool} {constants : Variables}
    (hclash : constants.clash? caseSensitive = none)
    (hnames : ∀ name ∈ constants.names, isBlank name = false) :
    bindConstants caseSensitive constants =
      .ok (boundTo caseSensitive (constants.fold caseSensitive)) := by
  have hfolded : ∀ binding ∈ (constants.fold caseSensitive).bindings,
      isBlank binding.1 = false := by
    intro binding hmem
    obtain ⟨name, hname, hfold⟩ := Variables.mem_names_fold.mp (List.mem_map_of_mem hmem)
    rw [← hfold, isBlank_canonical]
    exact hnames name hname
  obtain ⟨bound, hall⟩ := @exists_bindAll (.empty caseSensitive) nofun _ hfolded
  have hbound : bindConstants caseSensitive constants = .ok bound := by
    rw [bindConstants, hclash]
    dsimp only
    rw [hall]
  rw [hbound, (bindConstants_eq_ok hbound).1]

/-- With one more constant, the constants are refused for the same clash, or the
registry has one more entry. -/
theorem bindConstants_withOneMore {binding : String × Decimal}
    {bindings bindings' : List (String × Decimal)} (h : WithOneMore binding bindings bindings')
    {caseSensitive : Bool}
    (hnew : ∀ other ∈ bindings, canonical caseSensitive other.1 ≠ canonical caseSensitive binding.1)
    (hnames : ∀ other ∈ bindings', isBlank other.1 = false) :
    (∃ e, bindConstants caseSensitive (.ofList bindings) = .error e ∧
        bindConstants caseSensitive (.ofList bindings') = .error e) ∨
      ∃ entries entries',
        bindConstants caseSensitive (.ofList bindings) = .ok ⟨caseSensitive, entries⟩ ∧
        bindConstants caseSensitive (.ofList bindings') = .ok ⟨caseSensitive, entries'⟩ ∧
        WithOneMore (boundEntry (Variables.foldBinding caseSensitive binding)) entries entries' := by
  have hbindings := Variables.ofList_withOneMore h fun other hother hsame =>
    hnew other hother (by rw [hsame])
  have hnewNames : ∀ name ∈ (Variables.ofList bindings).names,
      canonical caseSensitive name ≠ canonical caseSensitive binding.1 := by
    intro name hname
    obtain ⟨other, hother, rfl⟩ := List.mem_map.mp ((Variables.names_ofList bindings).2 name hname)
    exact hnew other hother
  have hnamed : ∀ list : List (String × Decimal), (∀ other ∈ list, isBlank other.1 = false) →
      ∀ name ∈ (Variables.ofList list).names, isBlank name = false := by
    intro list hlist name hname
    obtain ⟨other, hother, rfl⟩ := List.mem_map.mp ((Variables.names_ofList list).2 name hname)
    exact hlist other hother
  have hsubset : ∀ other ∈ bindings, isBlank other.1 = false := by
    obtain ⟨before, after, rfl, rfl⟩ := h
    intro other hother
    refine hnames other ?_
    rw [List.mem_append] at hother ⊢
    exact hother.imp_right (List.mem_cons_of_mem _)
  have hsame := Variables.clash?_withOneMore hbindings hnewNames
  cases hclash : (Variables.ofList bindings).clash? caseSensitive with
  | some name =>
    exact .inl ⟨_, bindConstants_of_clash hclash, bindConstants_of_clash (hsame.trans hclash)⟩
  | none =>
    exact .inr ⟨_, _, bindConstants_of_distinct hclash (hnamed bindings hsubset),
      bindConstants_of_distinct (hsame.trans hclash) (hnamed bindings' hnames),
      (Variables.fold_withOneMore hbindings hnewNames).map boundEntry⟩

end Engine

/-- A name that is not the new one has the same entry. -/
theorem Registry.find?_withOneMore {noun : Noun} {α : Type} {entry : Entry α}
    {entries entries' : List (Entry α)} (h : WithOneMore entry entries entries')
    {caseSensitive : Bool} {name : String} (hname : canonical caseSensitive name ≠ entry.name) :
    Registry.find? (⟨caseSensitive, entries'⟩ : Registry noun α) name =
      Registry.find? (⟨caseSensitive, entries⟩ : Registry noun α) name := by
  rw [Registry.find?_eq, Registry.find?_eq]
  split
  · rfl
  · exact h.find?_eq (beq_false_of_ne hname.symm)

/-! ## Names in a text -/

/-- The name of a token that is one. -/
def Token.name? (token : Token) : Option String :=
  match token.kind with
  | .identifier name => some name
  | _ => none

/-- The names that stand in a text. -/
def namesIn (p : Punctuation) (text : String) : List String :=
  match tokenize p text with
  | .error _ => []
  | .ok tokens => tokens.filterMap Token.name?

section Constants

variable {functions : Functions} {bound bound' : Constants} {caseSensitive : Bool}

/-- Only the name of a token is looked up. -/
theorem Assembly.accept_congr_constants {token : Token}
    (h : ∀ name ∈ token.name?, bound'.find? name = bound.find? name) (s : State) :
    s.accept ⟨functions, bound', caseSensitive⟩ token =
      s.accept ⟨functions, bound, caseSensitive⟩ token := by
  obtain ⟨kind, range⟩ := token
  cases kind with
  | identifier name =>
    rw [State.accept, State.accept]
    dsimp only
    rw [acceptIdentifier, acceptIdentifier, h name rfl]
  | integer _ | decimal _ | leftBracket | rightBracket | separator | operator _ => rfl

theorem Assembly.acceptAll_congr_constants {tokens : List Token}
    (h : ∀ name ∈ tokens.filterMap Token.name?, bound'.find? name = bound.find? name)
    (s : State) :
    s.acceptAll ⟨functions, bound', caseSensitive⟩ tokens =
      s.acceptAll ⟨functions, bound, caseSensitive⟩ tokens := by
  induction tokens generalizing s with
  | nil => rfl
  | cons token tokens ih =>
    have htoken : ∀ name ∈ token.name?, bound'.find? name = bound.find? name := fun name hname =>
      h name (List.mem_filterMap.mpr ⟨token, List.mem_cons_self, hname⟩)
    have htokens : ∀ name ∈ tokens.filterMap Token.name?,
        bound'.find? name = bound.find? name := by
      intro name hname
      obtain ⟨other, hother, hsome⟩ := List.mem_filterMap.mp hname
      exact h name (List.mem_filterMap.mpr ⟨other, List.mem_cons_of_mem _ hother, hsome⟩)
    rw [State.acceptAll, State.acceptAll, accept_congr_constants htoken]
    cases s.accept ⟨functions, bound, caseSensitive⟩ token with
    | error e => rfl
    | ok t => exact ih htokens t

/-- A text is read with the constants under its own names only. -/
theorem Tree.read_congr_constants {p : Punctuation} {text : String}
    (h : ∀ name ∈ namesIn p text, bound'.find? name = bound.find? name) :
    Tree.read p ⟨functions, bound', caseSensitive⟩ text =
      Tree.read p ⟨functions, bound, caseSensitive⟩ text := by
  unfold namesIn at h
  unfold Tree.read
  cases htokens : tokenize p text with
  | error e => rfl
  | ok tokens =>
    rw [htokens] at h
    dsimp only at h ⊢
    rw [Tree.ofTokens, Tree.ofTokens, Assembly.acceptAll_congr_constants h]

end Constants

/-- A text is prepared with the constants under its own names only. -/
theorem Engine.prepare_congr_constants {options : Options} {functions : Functions}
    {text : String} {bound bound' : Constants}
    (h : ∀ name ∈ namesIn ⟨options.decimalSeparator⟩ text,
      bound'.find? name = bound.find? name) :
    prepare options functions text bound' = prepare options functions text bound := by
  rw [prepare, prepare, Tree.read_congr_constants h]

end FormulaEngine
