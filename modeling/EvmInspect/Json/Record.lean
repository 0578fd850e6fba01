import EvmInspect.Hex
import EvmInspect.Json.Basic
import EvmInspect.Size
import EvmInspect.Word.Literal
/-!
# Records in JSON

A record is an object of named fields, or the list of its fields in order.  Unknown names are
skipped, a known one may stand only once, and the fields at the end of a list may be left out if
they have a default.  Nothing here says why a document is not what was expected: it is refused.
-/

namespace EvmInspect.Json

/-- The fields of one record that are present. -/
structure Fields where
  present : List (String × Json)
  /-- The record is written as a list. -/
  listed : Bool

def keyCount (name : String) (entries : List (String × Json)) : Nat :=
  entries.countP fun e => e.1 == name

def fields? (names : List String) : Json → Option Fields
  | .object entries =>
    if names.all fun name => keyCount name entries ≤ 1 then some ⟨entries, false⟩ else none
  | .array items => if items.length ≤ names.length then some ⟨names.zip items, true⟩ else none
  | _ => none

def objectFields? (names : List String) : Json → Option Fields
  | .object entries => fields? names (.object entries)
  | _ => none

namespace Fields

variable {α : Type}

def get? (f : Fields) (name : String) : Option Json := Table.lookup name f.present

/-- A field that must be present. -/
def required (f : Fields) (name : String) (read : Json → Option α) : Option α :=
  (f.get? name).bind read

def orElse (f : Fields) (name : String) (default : α) (read : Json → Option α) : Option α :=
  match f.get? name with
  | some j => read j
  | none => some default

end Fields

def nullable? {α : Type} (read : Json → Option α) : Json → Option (Option α)
  | .null => some none
  | j => (read j).map some

namespace Fields

variable {α : Type}

/-- A field that an object may leave out and a list may not. -/
def optional (f : Fields) (name : String) (read : Json → Option α) : Option (Option α) :=
  match f.get? name with
  | some j => nullable? read j
  | none => if f.listed then none else some none

/-- A field that may always be left out. -/
def optionalOrNone (f : Fields) (name : String) (read : Json → Option α) : Option (Option α) :=
  f.orElse name none (nullable? read)

end Fields

def string? : Json → Option String
  | .string s => some s
  | _ => none

def bool? : Json → Option Bool
  | .bool b => some b
  | _ => none

def size? : Json → Option Nat
  | .int n => if 0 ≤ n ∧ n ≤ (Size.limit : Int) then some n.toNat else none
  | _ => none

def byte? : Json → Option UInt8
  | .int n => if 0 ≤ n ∧ n ≤ 255 then some (UInt8.ofNat n.toNat) else none
  | _ => none

def list? {α : Type} (read : Json → Option α) : Json → Option (List α)
  | .array items => items.mapM read
  | _ => none

/-- Bytes: their digits, or a list of numbers. -/
def bytes? : Json → Option (List UInt8)
  | .string s => Hex.decode s
  | j => list? byte? j

def fixedBytes? (size : Nat) (j : Json) : Option (List UInt8) := do
  let bytes ← bytes? j
  if bytes.length = size then some bytes else none

def word? (j : Json) : Option Word := (fixedBytes? 32 j).map Word.ofBytes

def address? (j : Json) : Option Address := (fixedBytes? 20 j).map Address.ofBytes

/-- A word as a number: its literal, or an addressable number. -/
def number256? : Json → Option Word
  | .string s => Word.parse? s
  | j => (size? j).map (BitVec.ofNat 256)

/-- One of several alternatives: its name, and what it carries. -/
def alternative? : Json → Option (String × Option Json)
  | .string name => some (name, none)
  | .object [(name, content)] => some (name, some content)
  | _ => none

def plain? : Json → Option String
  | j =>
    match alternative? j with
    | some (name, none) => some name
    | some (name, some .null) => some name
    | _ => none

/-- Number of a canonical decimal literal. -/
def numericKey? (s : String) : Option Nat :=
  let digits := s.toList
  if digits.isEmpty ∨ ¬digits.all Char.isDigit then none
  else if digits.head? = some '0' ∧ 1 < digits.length then none
  else
    let n := digits.foldl (fun n c => 10 * n + (c.toNat - 48)) 0
    if n ≤ Size.limit then some n else none

def numericMap? {α : Type} (read : Json → Option α) : Json → Option (Table Nat α)
  | .object entries => do
    let pairs ← entries.mapM fun e => do
      let key ← numericKey? e.1
      let value ← read e.2
      return (key, value)
    return Table.ofList pairs
  | _ => none

def ofBytes (bytes : List UInt8) : Json := .string (Hex.encode bytes)

def ofWord (w : Word) : Json := .string (Hex.ofWord w)

def ofAddress (a : Address) : Json := .string (Hex.encode a.toBytes)

def ofNumber256 (w : Word) : Json := .string (Hex.minimal w.toNat)

end EvmInspect.Json
