import EvmInspect.Config.Basic
import EvmInspect.Contract.Basic
import EvmInspect.Layout.Decode
import EvmInspect.Listing
import EvmInspect.Run
import EvmInspect.Storage.Path
import EvmInspect.Storage.Reading
/-!
# Dumps of variables

Reads the variables of a contract from what an execution leaves behind.  Mappings do not say which
keys they have: their entries are found among the slots that were written, by the paths of these.
What cannot be decoded is listed with the reason, but where decoding stops the whole dump does.
-/

namespace EvmInspect

def Reading.ofDecoded : Except Layout.Fault Declared → Run Reading
  | .ok v => some (.value v)
  | .error fault => if fault.stops then none else some (.invalid fault.message)

namespace Recording

def isTruncated (config : Config) (ty : Ty) : Bool :=
  match config.truncateLimit with
  | some limit => limit < ty.layoutSize
  | none => false

def decodeAt (r : Recording) (address : Address) (ty : Ty) (slot : Word) :
    Except Layout.Fault Declared :=
  Layout.decodeDeclared (.ofStorage r.storage address slot) ty 0

def readValue (r : Recording) (config : Config) (address : Address) (ty : Ty) (slot : Nat) :
    Run Reading :=
  if isTruncated config ty then some .truncated
  else Reading.ofDecoded (r.decodeAt address ty (BitVec.ofNat 256 slot))

/-- Written slots of an account, with their paths.  Slots that are derived from too many keys are
left out. -/
def writtenPaths (r : Recording) (config : Config) (address : Address) :
    List (Word × List (List UInt8)) :=
  (r.writes.slots address).filterMap fun slot =>
    match Storage.path r.preimages slot config.maxDepth with
    | .ok path => some (slot, path)
    | .error _ => none

/-- A mapping key of a declared type.  Addresses go by their names, if they have any, and bytes that
do not decode are kept. -/
def key (r : Recording) (ty : Ty) (bytes : List UInt8) : Key :=
  if ty.isWord then
    match Layout.decode (.ofBytes bytes) ty 0 with
    | .ok (.address a) =>
      match r.aliases.get? a with
      | some name => .label name
      | none => .value ⟨.address a, ty⟩
    | .ok v => .value ⟨v, ty⟩
    | .error _ => .raw bytes
  else .raw bytes

/-- Keys that lead through nested mappings, and the type at the end, if that is no mapping. -/
def keyPath? (r : Recording) : Ty → List (List UInt8) → Option (List Key × Ty)
  | .mapping keyType valueType, bytes :: rest =>
    (r.keyPath? valueType rest).map fun p => (r.key keyType bytes :: p.1, p.2)
  | .mapping _ _, [] => none
  | ty, [] => some ([], ty)
  | _, _ :: _ => none

/-- The leaf of a mapping that a written slot holds: its keys and its reading.  Zero values are no
leaves, and values too large to read are left out. -/
def leaf? (r : Recording) (config : Config) (address : Address) (ty : Ty) (root : Nat)
    (slot : Word) (path : List (List UInt8)) : Run (Option (List Key × Reading)) :=
  match path with
  | [] => some none
  | rootBytes :: keys =>
    if rootBytes = bytesOfNat 32 root then
      match r.keyPath? ty keys with
      | none => some none
      | some (keys, leafType) =>
        if isTruncated config leafType then some none
        else
          (Reading.ofDecoded (r.decodeAt address leafType slot)).map fun reading =>
            if reading.isZero then none else some (keys, reading)
    else some none

def readMapping (r : Recording) (config : Config) (paths : List (Word × List (List UInt8)))
    (address : Address) (ty : Ty) (slot : Nat) : Run Reading := do
  let leaves ← paths.mapM fun p => r.leaf? config address ty slot p.1 p.2
  return .mapping <| (leaves.filterMap id).foldl
    (fun entries l => Entries.insertPath l.2 l.1 entries) []

def readWith (r : Recording) (config : Config) (paths : List (Word × List (List UInt8)))
    (address : Address) (ty : Ty) (slot : Nat) : Run Reading :=
  if ty.isMapping then r.readMapping config paths address ty slot
  else r.readValue config address ty slot

def readVariable (r : Recording) (config : Config) (c : Contract) (v : Variable) (slot : Nat) :
    Run Reading :=
  r.readWith config (r.writtenPaths config c.address) c.address v.ty slot

def storageDump (r : Recording) (config : Config) (c : Contract) : Run (Listing Reading) := do
  let paths := r.writtenPaths config c.address
  let entries ← c.artifact.storageVariables.mapM fun (v, slot) =>
    (r.readWith config paths c.address v.ty slot).map fun reading => (v.name, reading)
  return .ofList "storage" entries

end Recording

namespace Contract

def readImmutable (c : Contract) (v : Variable) (offset : Nat) : Run Reading :=
  Reading.ofDecoded (Layout.decodeDeclared (.ofBytes c.immutableBytes) v.ty offset)

def immutablesDump (c : Contract) : Run (Listing Reading) := do
  let entries ← c.artifact.immutables.mapM fun (v, offset) =>
    (c.readImmutable v offset).map fun reading => (v.name, reading)
  return .ofList "immutables" entries

end Contract

end EvmInspect
