import EvmInspect.Keccak
import EvmInspect.Json.Record
import EvmInspect.Layout.Source
/-!
# What an execution leaves behind

The digests that were computed with what they were computed from, the storage slots that were
written, the storage itself, and names for addresses.
-/

namespace EvmInspect

/-- Digests, each with the bytes that it was computed from. -/
abbrev Preimages := Table Word (List UInt8)

namespace Preimages

def note (p : Preimages) (digest : Word) (bytes : List UInt8) : Preimages := p.insert digest bytes

def record (p : Preimages) (bytes : List UInt8) : Preimages := p.insert (keccak256 bytes) bytes

def toJson (p : Preimages) : Json :=
  .object (p.entries.map fun e => (Hex.ofWord e.1, .ofBytes e.2))

end Preimages

/-- The slots that were written, by account, each list in ascending order. -/
abbrev WriteLog := Table Address (List Word)

namespace WriteLog

/-- Puts a word into an ascending list, unless it is there already. -/
def insertAscending (w : Word) : List Word → List Word
  | [] => [w]
  | v :: rest =>
    if w.toNat < v.toNat then w :: v :: rest
    else if w = v then v :: rest
    else v :: insertAscending w rest

def slots (l : WriteLog) (address : Address) : List Word := (l.get? address).getD []

def record (l : WriteLog) (address : Address) (slot : Word) : WriteLog :=
  l.insert address (insertAscending slot (l.slots address))

def touched (l : WriteLog) (address : Address) : Bool := !(l.slots address).isEmpty

def toJson (l : WriteLog) : Json :=
  .object [("writes", .object (l.entries.map fun e =>
    (Address.hex e.1, .array (e.2.map .ofNumber256))))]

end WriteLog

abbrev Cells := Table (Address × Word) Word

/-- Storage that is read from a map; what is not set is zero. -/
def Cells.reader (cells : Cells) : StorageReader := fun address slot =>
  .ok ((cells.get? (address, slot)).getD 0)

def StorageReader.refusing (read : StorageReader) (slots : List Word) (cause : String) :
    StorageReader := fun address slot =>
  if slots.contains slot then .error ⟨address, slot, cause⟩ else read address slot

/-- Names of addresses, in whatever way they are known. -/
structure Aliases where
  get? : Address → Option String := fun _ => none

def Aliases.ofList (pairs : List (Address × String)) : Aliases := ⟨(Table.ofList pairs).get?⟩

structure Recording where
  storage : StorageReader := fun _ _ => .ok 0
  preimages : Preimages := {}
  writes : WriteLog := {}
  aliases : Aliases := {}

end EvmInspect
