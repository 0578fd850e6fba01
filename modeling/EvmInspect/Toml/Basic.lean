import EvmInspect.Table
/-!
# TOML documents

Settings are written in TOML.  A document is a table whose parts may be written in several places;
how a table came to be decides where it may be written further.
-/

namespace EvmInspect

/-- How a table came to be. -/
inductive TomlOrigin where
  /-- By a header of its own; the whole document counts as such a table. -/
  | header
  /-- By the header of a table inside it. -/
  | implied
  | dotted
  | inline
deriving DecidableEq, Repr

inductive Toml where
  | boolean (b : Bool)
  | integer (n : Int)
  | float (literal : String)
  /-- A date, a time, or both, as written. -/
  | moment (literal : String)
  | string (s : String)
  | array (items : List Toml)
  /-- Tables that headers in double brackets make, one after the other. -/
  | tables (items : List Toml)
  | table (origin : TomlOrigin) (entries : List (String × Toml))
deriving Repr

namespace Toml

/-- A table under construction: how it came to be, and its entries. -/
abbrev Open := TomlOrigin × List (String × Toml)

/-- A change of a table, which may be refused. -/
abbrev Change := Open → Option Open

/-- Applies a change to a table that is the value of a key; `viaKey` tells that the key stands
before a point in another key.  Values that are no tables, and tables in braces, are closed; tables
with headers are closed to keys with points. -/
def changeValue (viaKey : Bool) (change : Change) : Toml → Option Toml
  | .table origin entries =>
    if origin = .inline ∨ (viaKey ∧ origin = .header) then none
    else (change (origin, entries)).map fun t => .table t.1 t.2
  | .tables items =>
    if viaKey then none
    else
      match items.getLast? with
      | some (.table origin entries) =>
        (change (origin, entries)).map fun t => .tables (items.dropLast ++ [.table t.1 t.2])
      | _ => none
  | _ => none

/-- Applies a change to the table at the end of a path of keys.  Tables that are missing on the way
are made. -/
def changeAt (viaKey : Bool) (change : Change) : List String → Change
  | [], t => change t
  | key :: path, (origin, entries) =>
    let value := match Table.lookup key entries with
      | some v => changeValue viaKey (changeAt viaKey change path) v
      | none =>
        (changeAt viaKey change path (if viaKey then .dotted else .implied, [])).map
          fun (t : Open) => .table t.1 t.2
    value.map fun v => (origin, Table.insertEntry key v entries)

def setNew (key : String) (value : Toml) : Change := fun (origin, entries) =>
  match Table.lookup key entries with
  | some _ => none
  | none => some (origin, entries ++ [(key, value)])

/-- Sets a key with points in front of its last part.  A table that such a key reaches must have
been made by such a key. -/
def setPair (path : List String) (key : String) (value : Toml) : Change :=
  changeAt true (fun t => if path.isEmpty ∨ t.1 = .dotted then setNew key value t else none) path

def openTable (key : String) : Change := fun (origin, entries) =>
  match Table.lookup key entries with
  | none => some (origin, entries ++ [(key, .table .header [])])
  | some (.table .implied inner) =>
    some (origin, Table.insertEntry key (.table .header inner) entries)
  | some _ => none

def openElement (key : String) : Change := fun (origin, entries) =>
  match Table.lookup key entries with
  | none => some (origin, entries ++ [(key, .tables [.table .header []])])
  | some (.tables items) =>
    some (origin, Table.insertEntry key (.tables (items ++ [.table .header []])) entries)
  | some _ => none

inductive Line where
  /-- A header: keys in front of the last one, and the last one. -/
  | header (path : List String) (key : String)
  | element (path : List String) (key : String)
  | pair (path : List String) (key : String) (value : Toml)

def build : (current : List String) → List Line → Change
  | _, [], t => some t
  | _, .header path key :: rest, t =>
    (changeAt false (openTable key) path t).bind (build (path ++ [key]) rest)
  | _, .element path key :: rest, t =>
    (changeAt false (openElement key) path t).bind (build (path ++ [key]) rest)
  | current, .pair path key value :: rest, t =>
    (changeAt false (setPair path key value) current t).bind (build current rest)

def ofLines (lines : List Line) : Option (List (String × Toml)) :=
  (build [] lines (.header, [])).map Prod.snd

end Toml

end EvmInspect
