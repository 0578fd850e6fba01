import EvmInspect.Word
/-!
# Hexadecimal text

Byte strings are written as two lower-case digits a byte behind the mark `0x`.
-/

namespace EvmInspect.Hex

def digit (n : Nat) : Char :=
  if n < 10 then Char.ofNat (48 + n) else Char.ofNat (87 + n)

def digit? (c : Char) : Option Nat :=
  if '0' ≤ c ∧ c ≤ '9' then some (c.toNat - 48)
  else if 'a' ≤ c ∧ c ≤ 'f' then some (c.toNat - 87)
  else if 'A' ≤ c ∧ c ≤ 'F' then some (c.toNat - 55)
  else none

/-- Digits of `bytes`, without the mark. -/
def digits (bytes : List UInt8) : List Char :=
  bytes.flatMap fun b => [digit (b.toNat / 16), digit (b.toNat % 16)]

def encode (bytes : List UInt8) : String := String.ofList ('0' :: 'x' :: digits bytes)

def decodeDigits : List Char → Option (List UInt8)
  | [] => some []
  | [_] => none
  | hi :: lo :: rest => do
    let h ← digit? hi
    let l ← digit? lo
    let tail ← decodeDigits rest
    return UInt8.ofNat (16 * h + l) :: tail

def dropMark : List Char → List Char
  | '0' :: 'x' :: rest => rest
  | '0' :: 'X' :: rest => rest
  | s => s

/-- Bytes written by digits, with or without the mark. -/
def decode (s : String) : Option (List UInt8) := decodeDigits (dropMark s.toList)

/-- Digits of a number, most significant first, without leading zeros; zero is one digit. -/
def natDigits (n : Nat) : String := String.ofList (Nat.toDigits 16 n)

def ofWord (w : Word) : String := encode w.toBytes

def minimal (n : Nat) : String := "0x" ++ natDigits n

/-- Word written by exactly 64 digits, with or without the mark. -/
def word? (s : String) : Option Word := do
  let bytes ← decode s
  if bytes.length = 32 then some (Word.ofBytes bytes) else none

def address? (s : String) : Option Address := do
  let bytes ← decode s
  if bytes.length = 20 then some (Address.ofBytes bytes) else none

end EvmInspect.Hex
