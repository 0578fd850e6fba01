import EvmInspect.Json.Record
import EvmInspect.Listing
import EvmInspect.Value.Declared
/-!
# Tagged forms of types and values

Plain JSON forms write a number, an address and a text alike.  In the tagged forms each type and
each value says what it is, so that different ones stay apart; a declared value comes with its type
and its text.
-/

namespace EvmInspect

namespace Ty

mutual

/-- Tagged form of a type: its kind, and then what it is made of. -/
def tagged : Ty → Json
  | .uint bits => .array [.string "uint", .ofNat bits]
  | .int bits => .array [.string "int", .ofNat bits]
  | .bool => .array [.string "bool"]
  | .address => .array [.string "address"]
  | .fixedBytes size => .array [.string "fixed_bytes", .ofNat size]
  | .bytes bound => .array [.string "bytes", .ofDecimal bound]
  | .string bound => .array [.string "string", .ofDecimal bound]
  | .array elem length => .array [.string "static_array", elem.tagged, .ofDecimal length]
  | .dynArray elem bound => .array [.string "dyn_array", elem.tagged, .ofDecimal bound]
  | .tuple members => .array [.string "tuple", .array (taggedMembers members)]
  | .struct name fields => .array [.string "struct", .string name, .array (taggedFields fields)]
  | .mapping key value => .array [.string "hashmap", key.tagged, value.tagged]

def taggedMembers : List Ty → List Json
  | [] => []
  | t :: ts => t.tagged :: taggedMembers ts

def taggedFields : List (String × Ty) → List Json
  | [] => []
  | f :: fs => .array [.string f.1, f.2.tagged] :: taggedFields fs

end

end Ty

namespace Value

mutual

/-- Tagged form of a value: its only key is the value's kind. -/
def tagged : Value → Json
  | .bool b => .object [("bool", .bool b)]
  | .uint word bits => .object [("uint", .array [.ofDecimal word.toNat, .ofNat bits])]
  | .int word bits => .object [("int", .array [.string (toString word.toInt), .ofNat bits])]
  | .address a => .object [("address", .ofAddress a)]
  | .function f => .object [("function", .ofBytes f.toBytes)]
  | .fixedBytes word size => .object [("fixed_bytes", .array [.ofWord word, .ofNat size])]
  | .bytes data => .object [("bytes", .ofBytes data)]
  | .string s => .object [("string", .string s)]
  | .array items => .object [("array", .array (taggedAll items))]
  | .fixedArray items => .object [("fixed_array", .array (taggedAll items))]
  | .tuple items => .object [("tuple", .array (taggedAll items))]
  | .struct name fieldNames items =>
    .object [("struct", .object
      [("name", .string name), ("props", .strings fieldNames),
       ("values", .array (taggedAll items))])]

def taggedAll : List Value → List Json
  | [] => []
  | v :: vs => v.tagged :: taggedAll vs

end

end Value

def Declared.tagged (d : Declared) : Json :=
  .object
    [("raw", d.value.tagged), ("type", .string d.ty.text), ("display", .string d.text)]

def Listing.tagged {α : Type} (write : α → Json) (l : Listing α) : Json :=
  .array (l.table.entries.map fun e => .array [.string e.1, write e.2])

end EvmInspect
