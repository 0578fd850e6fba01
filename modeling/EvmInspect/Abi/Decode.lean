import EvmInspect.Abi.Type
import EvmInspect.Hex
import EvmInspect.Text.Utf8
import EvmInspect.Value.Basic
/-!
# Reading encodings

Reads values from an encoding along their types.  The reader trusts what the strict check looks at:
it takes padding for what it is, and a dynamic value from wherever its offset points.  Regions may
nest 16 deep.
-/

namespace EvmInspect.Abi

inductive ReadFault where
  | overrun
  /-- The word of an offset or a length is no addressable number. -/
  | badNumber (word : List UInt8)
  | tooDeep
deriving DecidableEq, Repr

def depthLimit : Nat := 16

def ReadFault.message : ReadFault → String
  | .overrun => "ABI decoding failed: buffer overrun while deserializing"
  | .badNumber word =>
    "ABI decoding failed: type check failed for \"offset (usize)\" with data: " ++
      String.ofList (Hex.digits word)
  | .tooDeep => s!"ABI decoding failed: recursion limit of {depthLimit} exceeded during decoding"

def readWord (region : List UInt8) (pos : Nat) : Except ReadFault (List UInt8) :=
  let word := (region.drop pos).take 32
  if word.length = 32 then .ok word else .error .overrun

def readNumber (region : List UInt8) (pos : Nat) : Except ReadFault Nat := do
  let word ← readWord region pos
  let n := natOfBytes word
  if n ≤ Size.limit then return n else throw (.badNumber word)

/-- The depth of a region inside one at this depth. -/
def deeper (depth : Nat) : Except ReadFault Nat :=
  if depth < depthLimit then .ok (depth + 1) else .error .tooDeep

def inner (region : List UInt8) (pos depth : Nat) : Except ReadFault (List UInt8 × Nat) := do
  let depth ← deeper depth
  if pos ≤ region.length then return (region.drop pos, depth) else throw .overrun

def follow (region : List UInt8) (pos depth : Nat) : Except ReadFault (List UInt8 × Nat) := do
  let offset ← readNumber region pos
  inner region offset depth

def readData (region : List UInt8) : Except ReadFault (List UInt8) := do
  let length ← readNumber region 0
  let data := (region.drop 32).take length
  if data.length = length then return data else throw .overrun

def readCopies (read : Nat → Except ReadFault (Value × Nat)) :
    (n pos : Nat) → Except ReadFault (List Value × Nat)
  | 0, pos => .ok ([], pos)
  | n + 1, pos =>
    match read pos with
    | .ok (v, pos) =>
      match readCopies read n pos with
      | .ok (vs, pos) => .ok (v :: vs, pos)
      | .error e => .error e
    | .error e => .error e

end EvmInspect.Abi

namespace EvmInspect.AbiType

mutual

/-- Values of the type stand behind an offset.  Unlike a dynamic type, an array of no elements needs
none. -/
def isIndirect : AbiType → Bool
  | .bytes | .string | .array _ => true
  | .fixedArray elem n => n != 0 && elem.isIndirect
  | .tuple members | .struct _ _ members => anyIndirect members
  | _ => false

def anyIndirect : List AbiType → Bool
  | [] => false
  | t :: ts => t.isIndirect || anyIndirect ts

end

end EvmInspect.AbiType

namespace EvmInspect.Abi

/-- Reads a sequence of values with a reader of sequences: in place, or from behind an offset. -/
def readSequence (indirect : Bool)
    (read : List UInt8 → Nat → Except ReadFault (List Value × Nat))
    (region : List UInt8) (pos depth : Nat) : Except ReadFault (List Value × Nat) := do
  if indirect then
    let (body, depth) ← follow region pos depth
    let (items, _) ← read body depth
    return (items, pos + 32)
  else
    let (body, depth) ← inner region pos depth
    let (items, size) ← read body depth
    return (items, pos + size)

mutual

/-- Reads the value at `pos` of a region at some depth, and tells where the next one starts. -/
def readValue : AbiType → (region : List UInt8) → (pos depth : Nat) →
    Except ReadFault (Value × Nat)
  | .bool, region, pos, _ => do
    let word ← readWord region pos
    return (.bool (natOfBytes word != 0), pos + 32)
  | .int bits, region, pos, _ => do
    let word ← readWord region pos
    return (.int (Word.ofBytes word) bits, pos + 32)
  | .uint bits, region, pos, _ => do
    let word ← readWord region pos
    return (.uint (Word.ofBytes word) bits, pos + 32)
  | .fixedBytes size, region, pos, _ => do
    let word ← readWord region pos
    return (.fixedBytes (Word.ofBytes word) size, pos + 32)
  | .address, region, pos, _ => do
    let word ← readWord region pos
    return (.address (Address.ofBytes (word.drop 12)), pos + 32)
  | .function, region, pos, _ => do
    let word ← readWord region pos
    return (.function (FunctionPointer.ofBytes (word.take 24)), pos + 32)
  | .bytes, region, pos, depth => do
    let (body, _) ← follow region pos depth
    let data ← readData body
    return (.bytes data, pos + 32)
  | .string, region, pos, depth => do
    let (body, _) ← follow region pos depth
    let data ← readData body
    return (.string (Text.ofUtf8Replacing data), pos + 32)
  | .array elem, region, pos, depth => do
    let (body, depth) ← follow region pos depth
    let n ← readNumber body 0
    if n = 0 ∨ elem.isEmpty then return (.array [], pos + 32)
    else
      let (body, depth) ← inner body 32 depth
      let (items, _) ← readCopies (fun p => readValue elem body p depth) n 0
      return (.array items, pos + 32)
  | .fixedArray elem n, region, pos, depth => do
    let (items, pos) ← readSequence (n != 0 && elem.isIndirect)
      (fun body depth => readCopies (fun p => readValue elem body p depth) n 0) region pos depth
    return (.fixedArray items, pos)
  | .tuple members, region, pos, depth => do
    let (items, pos) ← readSequence (AbiType.anyIndirect members)
      (fun body depth => readMembers members body 0 depth) region pos depth
    return (.tuple items, pos)
  | .struct name fieldNames members, region, pos, depth => do
    let (items, pos) ← readSequence (AbiType.anyIndirect members)
      (fun body depth => readMembers members body 0 depth) region pos depth
    return (.struct name fieldNames items, pos)

def readMembers : List AbiType → (region : List UInt8) → (pos depth : Nat) →
    Except ReadFault (List Value × Nat)
  | [], _, pos, _ => .ok ([], pos)
  | t :: ts, region, pos, depth => do
    let (v, pos) ← readValue t region pos depth
    let (vs, pos) ← readMembers ts region pos depth
    return (v :: vs, pos)

end

/-- Reads values as the parameters of a call.  If no value takes any bytes, there is nothing to
read. -/
def read (types : List AbiType) (data : List UInt8) : Except ReadFault (List Value) :=
  if AbiType.allEmpty types then .ok []
  else (readMembers types data 0 0).map Prod.fst

end EvmInspect.Abi
