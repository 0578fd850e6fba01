/-!
# Machine words

A word has 256 bits.  It is read from and written to 32 bytes, most significant byte first, and can
be taken as an unsigned number or as a two's complement one.
-/

namespace EvmInspect

/-- Number written by `bytes`, most significant byte first. -/
def natOfBytes (bytes : List UInt8) : Nat :=
  bytes.foldl (fun n b => n * 256 + b.toNat) 0

/-- The low `width` bytes of `n`, most significant byte first. -/
def bytesOfNat : (width : Nat) → (n : Nat) → List UInt8
  | 0, _ => []
  | width + 1, n => bytesOfNat width (n / 256) ++ [UInt8.ofNat n]

abbrev Word := BitVec 256

namespace Word

/-- Word written by `bytes`; of more than 32 bytes only the last 32 count. -/
def ofBytes (bytes : List UInt8) : Word := BitVec.ofNat 256 (natOfBytes bytes)

def toBytes (w : Word) : List UInt8 := bytesOfNat 32 w.toNat

def bitLength (w : Word) : Nat := if w.toNat = 0 then 0 else w.toNat.log2 + 1

def fitsUnsigned (w : Word) (bits : Nat) : Bool := w.bitLength ≤ bits

/-- The two's complement value needs at most `bits` bits, sign included: what is left above the
value bits is all zeros or all ones. -/
def fitsSigned (w : Word) (bits : Nat) : Bool :=
  256 ≤ bits ||
    (let high := w.sshiftRight (bits - 1)
     high == 0 || high == BitVec.allOnes 256)

def ofInt (n : Int) : Word := BitVec.ofInt 256 n

end Word

abbrev Address := BitVec 160

namespace Address

def ofBytes (bytes : List UInt8) : Address := BitVec.ofNat 160 (natOfBytes bytes)

def toBytes (a : Address) : List UInt8 := bytesOfNat 20 a.toNat

def toWord (a : Address) : Word := BitVec.ofNat 256 a.toNat

end Address

/-- A function pointer: an address followed by a selector. -/
abbrev FunctionPointer := BitVec 192

namespace FunctionPointer

def ofBytes (bytes : List UInt8) : FunctionPointer := BitVec.ofNat 192 (natOfBytes bytes)

def toBytes (f : FunctionPointer) : List UInt8 := bytesOfNat 24 f.toNat

end FunctionPointer

end EvmInspect
