import EvmInspect.Hex
import EvmInspect.Keccak
/-!
# Text of addresses

Addresses are shown in mixed case: a letter is upper case exactly when the digit at its place in the
digest of the lower-case digits is at least eight.  In records and traces they are lower case.
-/

namespace EvmInspect.Address

def digits (a : Address) : List Char := Hex.digits a.toBytes

def hex (a : Address) : String := Hex.encode a.toBytes

/-- Mixed-case text of an address, which carries a checksum in the case of its letters. -/
def checksum (a : Address) : String :=
  let lower := a.digits
  let marks := Hex.digits (Keccak.digestBytes (lower.map fun c => UInt8.ofNat c.toNat))
  String.ofList ('0' :: 'x' ::
    (lower.zip marks).map fun (c, mark) => if '8' ≤ mark then c.toUpper else c)

end EvmInspect.Address
