import EvmInspect.Layout.Source
import EvmInspect.Value.Declared
import EvmInspect.Text.Utf8
/-!
# Native layout

Memory, storage and the immutables behind the code share one layout: a word for every static value,
a word of length followed by the data for byte strings, texts and dynamic arrays, and the members
back to back for everything else.  A member takes the room of its type, whatever its value.
-/

namespace EvmInspect.Layout

/-- An offset further on, if it is addressable. -/
def advance (offset distance : Nat) : Except Fault Nat :=
  match Size.add? offset distance with
  | some n => .ok n
  | none => .error (.outOfBounds offset distance 0)

def wordAt (src : Source) (offset : Nat) : Except Fault Word :=
  (src offset 32).map Word.ofBytes

/-- The length of a value of a type, which has to be within its bound. -/
def lengthAt (ty : Ty) (bound : Nat) (src : Source) (offset : Nat) : Except Fault Nat := do
  let word ← wordAt src offset
  if word.toNat ≤ Size.limit ∧ word.toNat ≤ bound then return word.toNat
  else throw (.lengthExceeded ty word)

def checked (ty : Ty) (check : Except Ty.Illegal Unit) (v : Value) : Except Fault Value :=
  match check with
  | .ok _ => .ok v
  | .error reason => .error (.illegal ty reason)

/-- Decodes `n` values in a row, each `size` bytes behind the one before it. -/
def decodeCopies (decode : Nat → Except Fault Value) (size : Nat) :
    (n offset : Nat) → Except Fault (List Value)
  | 0, _ => .ok []
  | n + 1, offset => do
    let v ← decode offset
    let next ← advance offset size
    let vs ← decodeCopies decode size n next
    return v :: vs

mutual

/-- Decodes the value of a type whose layout starts at an offset. -/
def decode (src : Source) : Ty → (offset : Nat) → Except Fault Value
  | .uint bits, offset => do
    let word ← wordAt src offset
    checked (.uint bits) (Ty.checkUnsigned word bits) (.uint word bits)
  | .int bits, offset => do
    let word ← wordAt src offset
    checked (.int bits) (Ty.checkSigned word bits) (.int word bits)
  | .bool, offset => do
    let word ← wordAt src offset
    if word.toNat ≤ 1 then return .bool (word == 1) else throw (.badBool word)
  | .address, offset => do
    let word ← wordAt src offset
    if word.toNat >>> 160 = 0 then return .address (BitVec.ofNat 160 word.toNat)
    else throw (.dirtyAddress word)
  | .fixedBytes size, offset => do
    let word ← wordAt src offset
    if (word.toBytes.drop size).all (· == 0) then return .fixedBytes word size
    else throw (.dirtyFixedBytes size word)
  | .bytes bound, offset => do
    let length ← lengthAt (.bytes bound) bound src offset
    let start ← advance offset 32
    return .bytes (← src start length)
  | .string bound, offset => do
    let length ← lengthAt (.string bound) bound src offset
    let start ← advance offset 32
    match Text.ofUtf8? (← src start length) with
    | some s => return .string s
    | none => throw .notText
  | .array elem n, offset => do
    return .fixedArray (← decodeCopies (decode src elem) elem.layoutSize n offset)
  | .dynArray elem bound, offset => do
    let length ← lengthAt (.dynArray elem bound) bound src offset
    let start ← advance offset 32
    return .array (← decodeCopies (decode src elem) elem.layoutSize length start)
  | .tuple members, offset => return .tuple (← decodeMembers src members offset)
  | .struct _ fields, offset => return .tuple (← decodeFields src fields offset)
  | .mapping key value, _ => throw (.unsupported (.mapping key value))

def decodeMembers (src : Source) : List Ty → (offset : Nat) → Except Fault (List Value)
  | [], _ => .ok []
  | t :: ts, offset => do
    let v ← decode src t offset
    let next ← advance offset t.layoutSize
    let vs ← decodeMembers src ts next
    return v :: vs

def decodeFields (src : Source) : List (String × Ty) → (offset : Nat) → Except Fault (List Value)
  | [], _ => .ok []
  | f :: fs, offset => do
    let v ← decode src f.2 offset
    let next ← advance offset f.2.layoutSize
    let vs ← decodeFields src fs next
    return v :: vs

end

def decodeDeclared (src : Source) (ty : Ty) (offset : Nat) : Except Fault Declared :=
  (decode src ty offset).map fun v => ⟨v, ty⟩

end EvmInspect.Layout
