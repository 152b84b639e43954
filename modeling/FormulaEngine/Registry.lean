import FormulaEngine.Text.Blank
import FormulaEngine.Text.Letters

/-!
# Registries

A registry is a table of named things under one case policy.  Names are
stored in their canonical form, and each canonical name has one entry.  An
entry may be locked; a locked entry is never replaced.

The table of functions and the table of constants are both registries, told
apart by the `Noun` in their type, which also words their errors.
-/

namespace FormulaEngine

/-- What a registry holds. -/
inductive Noun where
  | function
  | constant
  deriving DecidableEq

/-- The noun in a message. -/
def Noun.word : Noun → String
  | .function => "function"
  | .constant => "constant"

/-- Why a registry refuses a request. -/
inductive RegistryError where
  | blankName
  | notOverwritable (noun : Noun) (name : String)
  | notFound (noun : Noun) (name : String)
  deriving DecidableEq

/-- The wording of a registry error. -/
def RegistryError.message : RegistryError → String
  | .blankName => "The name must not be empty."
  | .notOverwritable noun name =>
    "The " ++ noun.word ++ " \"" ++ name ++ "\" cannot be overwritten."
  | .notFound noun name => "The " ++ noun.word ++ " \"" ++ name ++ "\" does not exist."

/-- A named thing and whether it may be replaced. -/
structure Entry (α : Type) where
  name : String
  content : α
  isOverwritable : Bool

/-- A table of named things, in the order in which their names came. -/
structure Registry (noun : Noun) (α : Type) where
  caseSensitive : Bool
  entries : List (Entry α)

namespace Registry

variable {noun : Noun} {α : Type}

/-- A registry without entries. -/
def empty (caseSensitive : Bool) : Registry noun α := ⟨caseSensitive, []⟩

/-- A registry of locked entries.  The names must be distinct and in lower
case. -/
def ofLocked (caseSensitive : Bool) (contents : List (String × α)) : Registry noun α :=
  ⟨caseSensitive, contents.map fun (name, content) => ⟨name, content, false⟩⟩

/-- How many names are registered. -/
def size (registry : Registry noun α) : Nat := registry.entries.length

/-- Whether nothing is registered. -/
def isEmpty (registry : Registry noun α) : Bool := registry.entries.isEmpty

/-- The form under which a name is stored; a blank name has none. -/
def canonicalName (registry : Registry noun α) (name : String) :
    Except RegistryError String :=
  if Text.isBlank name then .error .blankName
  else .ok (Text.canonical registry.caseSensitive name)

/-- The entry with a canonical name. -/
def entry? (registry : Registry noun α) (canonical : String) : Option (Entry α) :=
  registry.entries.find? fun entry => entry.name == canonical

/-- The entry of a name. -/
def find (registry : Registry noun α) (name : String) :
    Except RegistryError (Entry α) :=
  match registry.canonicalName name with
  | .error e => .error e
  | .ok canonical =>
    match registry.entry? canonical with
    | some entry => .ok entry
    | none => .error (.notFound noun canonical)

/-- Whether a name is registered. -/
def contains (registry : Registry noun α) (name : String) : Except RegistryError Bool :=
  match registry.canonicalName name with
  | .error e => .error e
  | .ok canonical => .ok (registry.entry? canonical).isSome

/-- The entry of a name, if there is one. -/
def find? (registry : Registry noun α) (name : String) : Option (Entry α) :=
  (registry.find name).toOption

/-- The entries with one put in the place of the entry of the same name, or
at the end. -/
def putEntry (entry : Entry α) : List (Entry α) → List (Entry α)
  | [] => [entry]
  | other :: others =>
    if other.name == entry.name then entry :: others else other :: putEntry entry others

/-- Registers a thing under a name.  This fails for a blank name and for the
name of a locked entry. -/
def register (registry : Registry noun α) (name : String) (content : α)
    (isOverwritable : Bool) : Except RegistryError (Registry noun α) :=
  match registry.canonicalName name with
  | .error e => .error e
  | .ok canonical =>
    let added : Registry noun α :=
      { registry with entries := putEntry ⟨canonical, content, isOverwritable⟩ registry.entries }
    match registry.entry? canonical with
    | none => .ok added
    | some old => if old.isOverwritable then .ok added
      else .error (.notOverwritable noun canonical)

end Registry

end FormulaEngine
