import EvmInspect.Address
import EvmInspect.Size
import EvmInspect.Ty.Legal
/-!
# Byte sources

Call memory, storage and code are read as ranges of bytes.  The sources differ only in what a range
beyond the recorded bytes means: code ends, memory goes on with zeros, and storage is read slot by
slot and may refuse.
-/

namespace EvmInspect

structure StorageFault where
  address : Address
  slot : Word
  cause : String
deriving DecidableEq, Repr

def StorageFault.message (e : StorageFault) : String :=
  s!"failed to read slot {e.slot.toNat} of {e.address.checksum}: {e.cause}"

abbrev StorageReader := Address → Word → Except StorageFault Word

namespace Layout

inductive RangeFault where
  | unreadable (fault : StorageFault)
  /-- The range goes on behind the last byte that can be addressed.  All words up to there have been
  read, and the program stops where it cuts the range out of their `available` bytes. -/
  | cut (stop available : Nat)
deriving DecidableEq, Repr

def RangeFault.message : RangeFault → String
  | .unreadable fault => s!"storage read failed: {fault.message}"
  | .cut stop available =>
    s!"range end index {stop} out of range for slice of length {available}"

inductive Fault where
  /-- The range ends behind the bytes that there are. -/
  | outOfBounds (offset length available : Nat)
  /-- An unsigned integer is out of range. -/
  | illegal (ty : Ty) (reason : Ty.Illegal)
  /-- A truth value is neither zero nor one. -/
  | badBool (word : Word)
  /-- Bytes before an address are set. -/
  | dirtyAddress (word : Word)
  /-- Bytes behind a fixed byte string are set. -/
  | dirtyFixedBytes (size : Nat) (word : Word)
  /-- A length is greater than the type's bound. -/
  | lengthExceeded (ty : Ty) (length : Word)
  /-- A text's bytes are not well formed. -/
  | notText
  /-- The type has no layout of its own. -/
  | unsupported (ty : Ty)
  | storage (fault : RangeFault)
  /-- No buffer can hold so many bytes.  The program stops before it reads any of them. -/
  | capacity (size : Nat)
deriving DecidableEq, Repr

def Fault.message : Fault → String
  | .outOfBounds offset length available =>
    s!"read of {length} bytes at offset {offset} is out of bounds ({available} available)"
  | .illegal ty reason => s!"invalid {ty.text} value: {reason.message}"
  | .badBool word => s!"invalid bool value: {word.toNat} is neither 0 nor 1"
  | .dirtyAddress word => s!"invalid address value: {Hex.ofWord word} has dirty upper bytes"
  | .dirtyFixedBytes size word =>
    s!"invalid bytes{size} value: {Hex.ofWord word} has dirty trailing bytes"
  | .lengthExceeded ty length => s!"length {length.toNat} exceeds the bound of {ty.text}"
  | .notText => "string data is not valid UTF-8"
  | .unsupported ty => s!"type {ty.text} cannot be decoded from a flat layout"
  | .storage fault => fault.message
  | .capacity size => s!"capacity overflow: {size} bytes"

/-- The program does not report the fault but stops. -/
def Fault.stops : Fault → Bool
  | .storage (.cut _ _) | .capacity _ => true
  | _ => false

/-- A source of bytes: the bytes of a range by its offset and length. -/
abbrev Source := (offset length : Nat) → Except Fault (List UInt8)

namespace Source

def ofBytes (data : List UInt8) : Source := fun offset length =>
  if offset + length ≤ data.length then .ok ((data.drop offset).take length)
  else .error (.outOfBounds offset length data.length)

/-- Memory of a call: behind the recorded bytes it holds zeros. -/
def ofMemory (image : List UInt8) : Source := fun offset length =>
  if Size.bufferLimit < length then .error (.capacity length)
  else
    let known := (image.drop offset).take length
    .ok (known ++ List.replicate (length - known.length) 0)

def slotBytes (read : StorageReader) (address : Address) :
    (n : Nat) → (slot : Word) → Except Fault (List UInt8)
  | 0, _ => .ok []
  | n + 1, slot =>
    match read address slot with
    | .ok word =>
      match slotBytes read address n (slot + 1) with
      | .ok rest => .ok (word.toBytes ++ rest)
      | .error e => .error e
    | .error e => .error (.storage (.unreadable e))

/-- Number of slots that are read for a range.  The last position is clamped. -/
def slotCount (offset length : Nat) : Nat :=
  Size.add offset (length - 1) / 32 + 1 - offset / 32

/-- Storage of an account from a slot on.  Slots are counted modulo the size of a word. -/
def ofStorage (read : StorageReader) (address : Address) (base : Word) : Source :=
  fun offset length =>
    if length = 0 then .ok []
    else
      let count := slotCount offset length
      -- the buffer for all words is made before the first of them is read
      if Size.bufferLimit < count * Size.wordBytes then
        .error (.capacity (count * Size.wordBytes))
      else
        match slotBytes read address count (base + BitVec.ofNat 256 (offset / 32)) with
        | .ok bytes =>
          let stop := offset % 32 + length
          if stop ≤ bytes.length then .ok ((bytes.drop (offset % 32)).take length)
          else .error (.storage (.cut stop bytes.length))
        | .error e => .error e

end Source

end Layout

end EvmInspect
