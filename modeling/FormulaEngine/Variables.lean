import FormulaEngine.Decimal.Basic
import FormulaEngine.Text.Letters

/-!
# Variables

The values that a caller gives to names.  A name is bound at most once;
binding it again replaces its value.
-/

namespace FormulaEngine

/-- Names with their values, in the order in which the names came. -/
structure Variables where
  bindings : List (String × Decimal)

namespace Variables

/-- No variables. -/
def empty : Variables := ⟨[]⟩

/-- Whether there are no variables. -/
def isEmpty (vars : Variables) : Bool := vars.bindings.isEmpty

/-- How many names are bound. -/
def size (vars : Variables) : Nat := vars.bindings.length

/-- The bound names. -/
def names (vars : Variables) : List String := vars.bindings.map Prod.fst

/-- The value of a name. -/
def find? (vars : Variables) (name : String) : Option Decimal :=
  vars.bindings.lookup name

/-- The bindings with one name bound to a value. -/
def insertBinding (name : String) (value : Decimal) :
    List (String × Decimal) → List (String × Decimal)
  | [] => [(name, value)]
  | (other, old) :: rest =>
    if other == name then (name, value) :: rest
    else (other, old) :: insertBinding name value rest

/-- Binds a name to a value. -/
def insert (vars : Variables) (name : String) (value : Decimal) : Variables :=
  ⟨insertBinding name value vars.bindings⟩

/-- Binds a name to a value unless it is bound already. -/
def insertNew (vars : Variables) (name : String) (value : Decimal) : Variables :=
  if (vars.find? name).isSome then vars else vars.insert name value

/-- The variables of a list of bindings; the last binding of a name counts. -/
def ofList (bindings : List (String × Decimal)) : Variables :=
  bindings.foldl (fun vars (name, value) => vars.insert name value) empty

/-- The variables under the canonical forms of their names. -/
def fold (vars : Variables) (caseSensitive : Bool) : Variables :=
  if caseSensitive then vars
  else ofList (vars.bindings.map fun (name, value) => (Text.foldCase name, value))

/-- The first name of a list that occurs again earlier in it. -/
def firstRepeated? (seen : List String) : List String → Option String
  | [] => none
  | name :: names =>
    if seen.contains name then some name else firstRepeated? (name :: seen) names

/-- A canonical name that two of the names share. -/
def clash? (vars : Variables) (caseSensitive : Bool) : Option String :=
  firstRepeated? [] (vars.names.map (Text.canonical caseSensitive))

end Variables

end FormulaEngine
