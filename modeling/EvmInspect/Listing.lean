import EvmInspect.Json.Basic
/-!
# Listings

Named things that belong together, such as the variables of a function or of a contract's storage,
in the order in which their names were first set.
-/

namespace EvmInspect

structure Listing (α : Type) where
  owner : String
  table : Table String α := {}
deriving DecidableEq, Repr

namespace Listing

variable {α : Type}

/-- The listing with a name set; a name that is set again keeps its place. -/
def insert (l : Listing α) (name : String) (a : α) : Listing α :=
  { l with table := l.table.insert name a }

def get? (l : Listing α) (name : String) : Option α := l.table.get? name

def names (l : Listing α) : List String := l.table.keys

def size (l : Listing α) : Nat := l.table.size

def isEmpty (l : Listing α) : Bool := l.table.isEmpty

def ofList (owner : String) (pairs : List (String × α)) : Listing α := ⟨owner, Table.ofList pairs⟩

def textAs (write : α → String) (heading : String) (l : Listing α) : String :=
  s!"<{heading}: " ++ ", ".intercalate (l.table.entries.map fun e => s!"{e.1}={write e.2}") ++ ">"

def text (write : α → String) (l : Listing α) : String := l.textAs write l.owner

def toJson (write : α → Json) (l : Listing α) : Json :=
  .ofPairs (l.table.entries.map fun e => (e.1, write e.2))

end Listing

end EvmInspect
