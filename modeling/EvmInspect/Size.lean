/-!
# Sizes and offsets

Sizes, offsets and declared bounds are natural numbers that a 64-bit machine can address.  Layout
arithmetic clamps at the largest such number instead of growing past it.
-/

namespace EvmInspect.Size

def limit : Nat := 18446744073709551615

def add (a b : Nat) : Nat := min (a + b) limit

def mul (a b : Nat) : Nat := min (a * b) limit

/-- Most bytes that one buffer can hold. -/
def bufferLimit : Nat := 9223372036854775807

def wordBytes : Nat := 32

/-- The size rounded up to whole words, clamped at the limit. -/
def roundUp (n : Nat) : Nat := mul ((n + 31) / 32) wordBytes

def add? (a b : Nat) : Option Nat := if a + b ≤ limit then some (a + b) else none

end EvmInspect.Size
