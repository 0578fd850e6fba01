import EvmInspect.Word
/-!
# Keccak-256

The sponge over 25 lanes of 64 bits with a rate of 136 bytes.  The padding is a byte 1 behind the
message and the top bit of the block's last byte.
-/

namespace EvmInspect.Keccak

def rate : Nat := 136

private def roundConstants : List UInt64 :=
  [0x0000000000000001, 0x0000000000008082, 0x800000000000808A, 0x8000000080008000,
   0x000000000000808B, 0x0000000080000001, 0x8000000080008081, 0x8000000000008009,
   0x000000000000008A, 0x0000000000000088, 0x0000000080008009, 0x000000008000000A,
   0x000000008000808B, 0x800000000000008B, 0x8000000000008089, 0x8000000000008003,
   0x8000000000008002, 0x8000000000000080, 0x000000000000800A, 0x800000008000000A,
   0x8000000080008081, 0x8000000000008080, 0x0000000080000001, 0x8000000080008008]

/-- Rotation of lane `x + 5 * y`, in lane order. -/
private def rotations : Array UInt64 :=
  #[0, 1, 62, 28, 27, 36, 44, 6, 55, 20, 3, 10, 43, 25, 39, 41, 45, 15, 21, 8, 18, 2, 61, 56, 14]

private def rotate (x n : UInt64) : UInt64 :=
  if n = 0 then x else (x <<< n) ||| (x >>> (64 - n))

private def lane (a : Array UInt64) (i : Nat) : UInt64 := a.getD i 0

private def lanes (f : Nat → UInt64) : Array UInt64 := Array.ofFn fun i : Fin 25 => f i.val

def round (a : Array UInt64) (constant : UInt64) : Array UInt64 :=
  let parity := Array.ofFn fun x : Fin 5 =>
    lane a x ^^^ lane a (x + 5) ^^^ lane a (x + 10) ^^^ lane a (x + 15) ^^^ lane a (x + 20)
  let mix := Array.ofFn fun x : Fin 5 =>
    lane parity ((x + 4) % 5) ^^^ rotate (lane parity ((x + 1) % 5)) 1
  let a := lanes fun i => lane a i ^^^ lane mix (i % 5)
  -- lane (x, y) moves to (y, 2x + 3y); read backwards, (x, y) comes from (x + 3y, x)
  let b := lanes fun i =>
    let x := i % 5
    let y := i / 5
    let source := (x + 3 * y) % 5 + 5 * x
    rotate (lane a source) (lane rotations source)
  let a := lanes fun i =>
    let x := i % 5
    let row := 5 * (i / 5)
    lane b i ^^^ ((~~~ lane b (row + (x + 1) % 5)) &&& lane b (row + (x + 2) % 5))
  a.setIfInBounds 0 (lane a 0 ^^^ constant)

def permute (a : Array UInt64) : Array UInt64 := roundConstants.foldl round a

/-- Number written by up to eight bytes, least significant byte first. -/
private def laneOfBytes (bytes : List UInt8) : UInt64 :=
  bytes.foldr (fun b n => (n <<< 8) ||| b.toUInt64) 0

private def lanesOfBytes : Nat → List UInt8 → List UInt64
  | 0, _ => []
  | n + 1, bytes => laneOfBytes (bytes.take 8) :: lanesOfBytes n (bytes.drop 8)

def absorb (state : Array UInt64) (block : List UInt8) : Array UInt64 :=
  let input := (lanesOfBytes 17 block).toArray
  permute (lanes fun i => lane state i ^^^ lane input i)

def pad (message : List UInt8) : List UInt8 :=
  let missing := rate - message.length % rate
  if missing = 1 then message ++ [0x81]
  else message ++ 0x01 :: List.replicate (missing - 2) 0 ++ [0x80]

private def absorbBlocks : Nat → Array UInt64 → List UInt8 → Array UInt64
  | 0, state, _ => state
  | n + 1, state, bytes => absorbBlocks n (absorb state (bytes.take rate)) (bytes.drop rate)

private def bytesOfLane (x : UInt64) : List UInt8 :=
  (List.range 8).map fun i => (x >>> (8 * UInt64.ofNat i)).toUInt8

def digestBytes (message : List UInt8) : List UInt8 :=
  let padded := pad message
  let state := absorbBlocks (padded.length / rate) (Array.replicate 25 0) padded
  (List.range 4).flatMap fun i => bytesOfLane (lane state i)

end EvmInspect.Keccak

namespace EvmInspect

def keccak256 (message : List UInt8) : Word := Word.ofBytes (Keccak.digestBytes message)

def keccakText (s : String) : Word := keccak256 s.toUTF8.data.toList

end EvmInspect
