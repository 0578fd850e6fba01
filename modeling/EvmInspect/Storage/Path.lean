import EvmInspect.Storage.State
/-!
# Paths of storage keys

The entry of a mapping lies at the digest of the mapping's own location, a word, followed by the
entry's key.  Following recorded digests backwards from a location gives the slot at the root and
the keys on the way.
-/

namespace EvmInspect.Storage

structure TooDeep where
  key : Word
  limit : Nat
deriving DecidableEq, Repr

def TooDeep.message (e : TooDeep) : String :=
  s!"storage key {Hex.ofWord e.key} nests deeper than {e.limit} levels"

/-- The location that a location was derived from, and the key: the parts of its recorded preimage,
if that holds a location at all. -/
def step? (preimages : Preimages) (location : Word) : Option (Word × List UInt8) :=
  match preimages.get? location with
  | some bytes =>
    if 32 ≤ bytes.length then some (Word.ofBytes (bytes.take 32), bytes.drop 32) else none
  | none => none

/-- The path of a location by at most `depth` steps, in front of the keys that were found below
it. -/
def pathFrom (preimages : Preimages) :
    (depth : Nat) → (location : Word) → (keys : List (List UInt8)) → Option (List (List UInt8))
  | depth, location, keys =>
    match step? preimages location with
    | none => some (location.toBytes :: keys)
    | some (parent, key) =>
      match depth with
      | 0 => none
      | depth + 1 => pathFrom preimages depth parent (key :: keys)

/-- The path of a location: the word of the root slot, and the keys from the outermost to the
innermost.  A location without a recorded preimage is its own root. -/
def path (preimages : Preimages) (location : Word) (depth : Nat) :
    Except TooDeep (List (List UInt8)) :=
  match pathFrom preimages depth location [] with
  | some p => .ok p
  | none => .error ⟨location, depth⟩

end EvmInspect.Storage
