/-!
# Tables

Finite maps that remember the order in which their keys were first set.  Setting a key again keeps
its place.
-/

namespace EvmInspect

/-- A finite map in the order in which its keys were first set. -/
structure Table (κ : Type) (ν : Type) where
  /-- The keys with their values; no key occurs twice in a table that is built by `insert`. -/
  entries : List (κ × ν) := []
deriving DecidableEq, Repr, Inhabited

namespace Table

variable {κ ν : Type} [DecidableEq κ]

/-- Sets `key` in a list of entries: in its place, or else at the end. -/
def insertEntry (key : κ) (value : ν) : List (κ × ν) → List (κ × ν)
  | [] => [(key, value)]
  | e :: rest => if e.1 = key then (key, value) :: rest else e :: insertEntry key value rest

def lookup (key : κ) : List (κ × ν) → Option ν
  | [] => none
  | e :: rest => if e.1 = key then some e.2 else lookup key rest

def insert (t : Table κ ν) (key : κ) (value : ν) : Table κ ν := ⟨insertEntry key value t.entries⟩

def get? (t : Table κ ν) (key : κ) : Option ν := lookup key t.entries

/-- The table of some pairs; of equal keys the last one counts. -/
def ofList (pairs : List (κ × ν)) : Table κ ν :=
  pairs.foldl (fun t p => t.insert p.1 p.2) ⟨[]⟩

def keys (t : Table κ ν) : List κ := t.entries.map Prod.fst

def size (t : Table κ ν) : Nat := t.entries.length

def isEmpty (t : Table κ ν) : Bool := t.entries.isEmpty

end Table

end EvmInspect
