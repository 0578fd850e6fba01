import EvmInspect.Word
/-!
# Number literals

A word is written in decimal, or in base 16, 8 or 2 behind the marks `0x`, `0o` and `0b`.  An
underscore between digits means nothing, and no digits at all are zero.
-/

namespace EvmInspect.Word

def digit? (c : Char) : Option Nat :=
  if '0' ≤ c ∧ c ≤ '9' then some (c.toNat - 48)
  else if 'a' ≤ c ∧ c ≤ 'z' then some (c.toNat - 87)
  else if 'A' ≤ c ∧ c ≤ 'Z' then some (c.toNat - 55)
  else none

def digitsFrom? (base : Nat) (n : Nat) : List Char → Option Nat
  | [] => some n
  | '_' :: rest => digitsFrom? base n rest
  | c :: rest =>
    match digit? c with
    | some d => if d < base then digitsFrom? base (base * n + d) rest else none
    | none => none

/-- Base of a literal, and its digits. -/
def splitBase : List Char → Nat × List Char
  | '0' :: 'x' :: rest | '0' :: 'X' :: rest => (16, rest)
  | '0' :: 'o' :: rest | '0' :: 'O' :: rest => (8, rest)
  | '0' :: 'b' :: rest | '0' :: 'B' :: rest => (2, rest)
  | s => (10, s)

/-- The word of a literal, if it is one and has at most 256 bits. -/
def parse? (s : String) : Option Word :=
  let (base, digits) := splitBase s.toList
  match digitsFrom? base 0 digits with
  | some n => if n >>> 256 = 0 then some (BitVec.ofNat 256 n) else none
  | none => none

end EvmInspect.Word
