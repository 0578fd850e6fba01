import EvmInspect.Run
import EvmInspect.Size
import EvmInspect.Ty.Basic
/-!
# Types of the call interface

The types in which values cross a call boundary.  Declared types lose their bounds and the names of
their members on the way, and mappings have no such type.
-/

namespace EvmInspect

inductive AbiType where
  | bool
  | int (bits : Nat)
  | uint (bits : Nat)
  | fixedBytes (size : Nat)
  | address
  | function
  | bytes
  | string
  | array (elem : AbiType)
  | fixedArray (elem : AbiType) (length : Nat)
  | tuple (members : List AbiType)
  | struct (name : String) (fieldNames : List String) (members : List AbiType)
deriving Repr, Inhabited

namespace AbiType

mutual

/-- A value of the type is encoded apart from its place, behind an offset: its encoding has no fixed
size. -/
def isDynamic : AbiType → Bool
  | .bytes | .string | .array _ => true
  | .fixedArray elem _ => elem.isDynamic
  | .tuple members | .struct _ _ members => anyDynamic members
  | _ => false

def anyDynamic : List AbiType → Bool
  | [] => false
  | t :: ts => t.isDynamic || anyDynamic ts

end

mutual

/-- Bytes of the encoding of a static type.  The sizes of members are added up in one machine word,
and the program stops if they are too large for it. -/
def staticSize? : AbiType → Run Nat
  | .fixedArray elem n => elem.staticSize?.map (Size.mul n)
  | .tuple members | .struct _ _ members => staticSizes? members
  | _ => some Size.wordBytes

def staticSizes? : List AbiType → Run Nat
  | [] => some 0
  | t :: ts => do
    let size ← t.staticSize?
    let rest ← staticSizes? ts
    Size.add? size rest

end

/-- Bytes that a value of the type takes at its place in a sequence: its encoding, or the word of
its offset. -/
def headSize? (t : AbiType) : Run Nat := if t.isDynamic then some Size.wordBytes else t.staticSize?

def headsSize? (types : List AbiType) : Run Nat :=
  types.foldlM (fun n t => t.headSize?.map (Size.add n)) 0

mutual

/-- No value of the type takes any bytes. -/
def isEmpty : AbiType → Bool
  | .array elem => elem.isEmpty
  | .fixedArray elem n => n == 0 || elem.isEmpty
  | .tuple members | .struct _ _ members => allEmpty members
  | _ => false

def allEmpty : List AbiType → Bool
  | [] => true
  | t :: ts => t.isEmpty && allEmpty ts

end

/-- A parenthesised list of names, in which a single name is followed by a comma. -/
def tupleName (names : List String) : String :=
  "(" ++ ",".intercalate names ++ (if names.length = 1 then ",)" else ")")

mutual

def name : AbiType → String
  | .bool => "bool"
  | .int bits => s!"int{bits}"
  | .uint bits => s!"uint{bits}"
  | .fixedBytes size => s!"bytes{size}"
  | .address => "address"
  | .function => "function"
  | .bytes => "bytes"
  | .string => "string"
  | .array elem => elem.name ++ "[]"
  | .fixedArray elem n => s!"{elem.name}[{n}]"
  | .tuple members | .struct _ _ members => tupleName (names members)

def names : List AbiType → List String
  | [] => []
  | t :: ts => t.name :: names ts

end

end AbiType

namespace Ty

mutual

/-- Type of the values when they cross a call boundary; mappings, and what contains one, have
none. -/
def abiType? : Ty → Option AbiType
  | .uint bits => some (.uint bits)
  | .int bits => some (.int bits)
  | .bool => some .bool
  | .address => some .address
  | .fixedBytes size => some (.fixedBytes size)
  | .bytes _ => some .bytes
  | .string _ => some .string
  | .array elem n => elem.abiType?.map fun t => .fixedArray t n
  | .dynArray elem _ => elem.abiType?.map .array
  | .tuple members => (abiTypes? members).map .tuple
  | .struct _ fields => (fieldAbiTypes? fields).map .tuple
  | .mapping _ _ => none

def abiTypes? : List Ty → Option (List AbiType)
  | [] => some []
  | t :: ts => t.abiType?.bind fun a => (abiTypes? ts).map fun as => a :: as

def fieldAbiTypes? : List (String × Ty) → Option (List AbiType)
  | [] => some []
  | f :: fs => f.2.abiType?.bind fun a => (fieldAbiTypes? fs).map fun as => a :: as

end

def selectorName? (t : Ty) : Option String := t.abiType?.map AbiType.name

end Ty

end EvmInspect
