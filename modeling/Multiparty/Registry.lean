/-!
# Ordered registries

A registry maps names to values and lists them in the order in which the names
first appeared.  Storing a value under a known name replaces the earlier value
without moving it.  The same discipline, `upsert`, governs any list whose items
carry a key of their own.  Groups and sessions rely on nothing but this
discipline, and any ordered map that keeps it may stand in for a registry; see
`OrderedMap.InsertStores`.
-/

namespace Multiparty

section Upsert

variable {α κ : Type} [DecidableEq κ]

/-- Replace the first item that has the key of `item`, or append `item`. -/
def upsert (key : α → κ) (item : α) : List α → List α
  | [] => [item]
  | head :: tail =>
      if key head = key item then
        item :: tail
      else
        head :: upsert key item tail

end Upsert

/-- Values stored under names, in the order of first storage. -/
structure Registry (α : Type) where
  entries : List (String × α) := []
  deriving DecidableEq

namespace Registry

variable {α : Type}

/-- The registry without entries. -/
def empty : Registry α := {}

/-- The value stored under a name. -/
def get? (registry : Registry α) (name : String) : Option α :=
  registry.entries.lookup name

/-- Some value is stored under a name. -/
def contains (registry : Registry α) (name : String) : Bool :=
  (registry.get? name).isSome

/-- Store a value under a name. -/
def insert (registry : Registry α) (name : String) (value : α) : Registry α :=
  ⟨upsert Prod.fst (name, value) registry.entries⟩

/-- Store a value under a name and return the value that it replaces. -/
def getThenInsert? (registry : Registry α) (name : String) (value : α) :
    Option α × Registry α :=
  (registry.get? name, registry.insert name value)

/-- The registry that stores the listed values one after the other. -/
def ofList (entries : List (String × α)) : Registry α :=
  entries.foldl (fun registry entry => registry.insert entry.1 entry.2) empty

/-- The names in the order of first storage. -/
def keys (registry : Registry α) : List String :=
  registry.entries.map Prod.fst

/-- The values in the order of first storage. -/
def values (registry : Registry α) : List α :=
  registry.entries.map Prod.snd

/-- The number of entries. -/
def size (registry : Registry α) : Nat :=
  registry.entries.length

end Registry

end Multiparty
