import EvmInspect.Abi.Type
import EvmInspect.Text.Utf8
import EvmInspect.Value.Basic
/-!
# Encoding values

A sequence of values is encoded as its heads followed by its tails.  A static value stands in the
heads; a dynamic one stands in the tails, and its head is the distance from the start of the heads
to it.  Whether a value is dynamic is seen from the value alone.
-/

namespace EvmInspect

namespace AbiType

mutual

/-- The value has exactly the type: widths, sizes and lengths included.  A struct's value may stand
for a tuple. -/
def matchesValue : AbiType → Value → Bool
  | .bool, .bool _ => true
  | .int bits, .int _ width => width == bits
  | .uint bits, .uint _ width => width == bits
  | .fixedBytes n, .fixedBytes _ size => size == n
  | .address, .address _ => true
  | .function, .function _ => true
  | .bytes, .bytes _ => true
  | .string, .string _ => true
  | .array elem, .array items => items.all fun v => elem.matchesValue v
  | .fixedArray elem n, .fixedArray items =>
    items.length == n && items.all fun v => elem.matchesValue v
  | .tuple members, .tuple items => members.length == items.length && allMatch members items
  | .tuple members, .struct _ _ items => members.length == items.length && allMatch members items
  | _, _ => false

def allMatch : List AbiType → List Value → Bool
  | t :: ts, v :: vs => t.matchesValue v && allMatch ts vs
  | _, _ => true

end

end AbiType

namespace Value

mutual

/-- The value is encoded apart from its place. -/
def isDynamic : Value → Bool
  | .bytes _ | .string _ | .array _ => true
  | .fixedArray items | .tuple items | .struct _ _ items => anyDynamic items
  | _ => false

def anyDynamic : List Value → Bool
  | [] => false
  | v :: vs => v.isDynamic || anyDynamic vs

end

def padded (data : List UInt8) : List UInt8 :=
  data ++ List.replicate ((32 - data.length % 32) % 32) 0

def numberWord (n : Nat) : List UInt8 := bytesOfNat 32 n

/-- Heads and tails of encoded parts, where the first tail stands `offset` bytes behind the first
head.  A part is the encoding of a value and whether the value is dynamic. -/
def layOut (offset : Nat) : List (Bool × List UInt8) → List UInt8 × List UInt8
  | [] => ([], [])
  | (dynamic, body) :: rest =>
    if dynamic then
      let (heads, tails) := layOut (offset + body.length) rest
      (numberWord offset ++ heads, body ++ tails)
    else
      let (heads, tails) := layOut offset rest
      (body ++ heads, tails)

def headsSize : List (Bool × List UInt8) → Nat
  | [] => 0
  | (dynamic, body) :: rest => (if dynamic then 32 else body.length) + headsSize rest

def assemble (parts : List (Bool × List UInt8)) : List UInt8 :=
  let (heads, tails) := layOut (headsSize parts) parts
  heads ++ tails

mutual

def encode : Value → List UInt8
  | .bool b => numberWord (if b then 1 else 0)
  | .int word _ | .uint word _ | .fixedBytes word _ => word.toBytes
  | .address a => a.toWord.toBytes
  | .function f => f.toBytes ++ List.replicate 8 0
  | .bytes data => numberWord data.length ++ padded data
  | .string s => numberWord s.utf8ByteSize ++ padded (Text.toUtf8 s)
  | .array items => numberWord items.length ++ assemble (parts items)
  | .fixedArray items | .tuple items | .struct _ _ items => assemble (parts items)

/-- Encodings of values, each with whether the value is dynamic. -/
def parts : List Value → List (Bool × List UInt8)
  | [] => []
  | v :: vs => (v.isDynamic, v.encode) :: parts vs

end

def encodeAll (values : List Value) : List UInt8 := assemble (parts values)

end Value

end EvmInspect
