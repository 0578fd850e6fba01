import EvmInspect.Table
/-!
# JSON documents

Compiler output, traces and dumps are exchanged as JSON.  What no record here has a field for is
kept as it is written, so that a reader can skip it: numbers that are not integer literals, and
texts in which half of a surrogate pair is escaped.
-/

namespace EvmInspect

inductive Json where
  | null
  | bool (b : Bool)
  | int (n : Int)
  /-- Something no record has a field for, as written: any other number, a text with half of a
  surrogate pair, or an object with such a key. -/
  | foreign (source : String)
  | string (s : String)
  | array (items : List Json)
  /-- Entries in the order in which they are written; keys may repeat. -/
  | object (entries : List (String × Json))
deriving Repr, Inhabited

namespace Json

/-- An object of entries, where of equal keys the last one counts. -/
def ofPairs (pairs : List (String × Json)) : Json := .object (Table.ofList pairs).entries

def ofNat (n : Nat) : Json := .int n

/-- A number as decimal text, for numbers that may be too large for a reader. -/
def ofDecimal (n : Nat) : Json := .string (toString n)

def ofOption {α : Type} (write : α → Json) : Option α → Json
  | none => .null
  | some a => write a

def strings (texts : List String) : Json := .array (texts.map .string)

mutual

/-- Equality of documents, by recursion on the first. -/
def same : Json → Json → Bool
  | .null, .null => true
  | .bool a, .bool b => a == b
  | .int a, .int b => a == b
  | .foreign a, .foreign b => a == b
  | .string a, .string b => a == b
  | .array a, .array b => sameItems a b
  | .object a, .object b => sameEntries a b
  | _, _ => false

def sameItems : List Json → List Json → Bool
  | [], [] => true
  | a :: as, b :: bs => a.same b && sameItems as bs
  | _, _ => false

def sameEntries : List (String × Json) → List (String × Json) → Bool
  | [], [] => true
  | a :: as, b :: bs => a.1 == b.1 && a.2.same b.2 && sameEntries as bs
  | _, _ => false

end

mutual

/-- The document in which of equal keys of one object only the last one is left. -/
def canonical : Json → Json
  | .array items => .array (canonicalItems items)
  | .object entries => ofPairs (canonicalEntries entries)
  | j => j

def canonicalItems : List Json → List Json
  | [] => []
  | j :: rest => j.canonical :: canonicalItems rest

def canonicalEntries : List (String × Json) → List (String × Json)
  | [] => []
  | e :: rest => (e.1, e.2.canonical) :: canonicalEntries rest

end

end Json

end EvmInspect
