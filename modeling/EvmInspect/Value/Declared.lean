import EvmInspect.Address
import EvmInspect.Json.Basic
import EvmInspect.Text.Quoted
import EvmInspect.Ty.Basic
import EvmInspect.Value.Basic
/-!
# Values with their declared types

The declared type gives back what the call interface drops: the names of a struct and of its
members.  This module renders such values as text and as JSON.
-/

namespace EvmInspect

structure Declared where
  value : Value
  ty : Ty
deriving DecidableEq, Repr, Inhabited

structure Rendering where
  /-- Names of addresses, if there are any to look up. -/
  names : Option (Address → Option String) := none
  /-- Numbers, addresses and fixed byte strings are written with their type. -/
  withType : Bool := false
  /-- Long arrays, byte strings, texts and addresses are cut. -/
  short : Bool := false

namespace Rendering

def text (r : Rendering) : String :=
  "ValueFormatterContext \x7b resolve_address: " ++ toString r.names.isSome ++
    ", with_ty: " ++ toString r.withType ++ ", shorten_long: " ++ toString r.short ++ " \x7d"

/-- Text of an address without the middle of its digits. -/
def shortAddress (s : String) : String :=
  let letters := s.toList
  String.ofList (letters.take 8) ++ "..." ++ String.ofList (letters.drop (letters.length - 6))

/-- A rendering behind the name of its type, where types are shown. -/
def typed (r : Rendering) (type body : String) : String :=
  if r.withType then s!"{type}({body})" else body

def address (r : Rendering) (a : Address) : String :=
  match r.names.bind fun name => name a with
  | some label => label
  | none =>
    let s := a.checksum
    r.typed "address" (if r.short then shortAddress s else s)

def bytes (r : Rendering) (data : List UInt8) : String :=
  if r.short ∧ 32 < data.length then s!"{Hex.encode (data.take 16)}...[{data.length} bytes]"
  else Hex.encode data

def string (r : Rendering) (s : String) : String :=
  if r.short ∧ 64 < s.length then
    s!"{Text.quote (String.ofList (s.toList.take 32))}...[{s.length} chars]"
  else Text.quote s

def array (r : Rendering) (items : List String) : String :=
  if r.short ∧ 5 < items.length then
    "[" ++ ", ".intercalate (items.take 3) ++ s!", ...[{items.length} items]]"
  else "[" ++ ", ".intercalate items ++ "]"

def tuple (items : List String) : String :=
  "(" ++ ", ".intercalate items ++ (if items.length = 1 then ",)" else ")")

def struct (name : String) (fields : List (String × String)) : String :=
  name ++ "(" ++ ", ".intercalate (fields.map fun f => s!"{f.1}: {f.2}") ++ ")"

end Rendering

namespace Ty

def elem? : Ty → Option Ty
  | .array elem _ | .dynArray elem _ => some elem
  | _ => none

/-- Types of the members of a tuple of `n`: none is known unless the type is a tuple or struct of as
many. -/
def memberTypes (n : Nat) : Option Ty → List (Option Ty)
  | some (.tuple members) =>
    if members.length = n then members.map some else List.replicate n none
  | some (.struct _ fields) =>
    if fields.length = n then fields.map fun f => some f.2 else List.replicate n none
  | _ => List.replicate n none

def structNames? (n : Nat) : Option Ty → Option (String × List String)
  | some (.struct name fields) =>
    if fields.length = n then some (name, fields.map Prod.fst) else none
  | _ => none

/-- Short name of a type: of a struct only its name. -/
def shortName : Ty → String
  | .struct name _ => name
  | ty => ty.text

end Ty

namespace Value

mutual

/-- Rendering of a value whose declared type may be known. -/
def render (r : Rendering) : Value → Option Ty → String
  | .bool b, _ => if b then "true" else "false"
  | .int word bits, _ => r.typed s!"int{bits}" (toString word.toInt)
  | .uint word bits, _ => r.typed s!"uint{bits}" (toString word.toNat)
  | .address a, _ => r.address a
  | .function f, _ => Hex.encode f.toBytes
  | .fixedBytes word size, _ => r.typed s!"bytes{size}" (Hex.encode (fixedBytesData word size))
  | .bytes data, _ => r.bytes data
  | .string s, _ => r.string s
  | .array items, ty | .fixedArray items, ty => r.array (renderAll r items (ty.bind Ty.elem?))
  | .tuple items, ty =>
    let texts := renderMembers r items (Ty.memberTypes items.length ty)
    match Ty.structNames? items.length ty with
    | some (name, names) => Rendering.struct name (names.zip texts)
    | none => Rendering.tuple texts
  | .struct name names items, _ =>
    Rendering.struct name (names.zip (renderMembers r items (List.replicate items.length none)))

def renderAll (r : Rendering) : List Value → Option Ty → List String
  | [], _ => []
  | v :: vs, ty => v.render r ty :: renderAll r vs ty

def renderMembers (r : Rendering) : List Value → List (Option Ty) → List String
  | v :: vs, ty :: tys => v.render r ty :: renderMembers r vs tys
  | _, _ => []

end

mutual

/-- JSON form of a value whose declared type may be known: integers are decimal text, bytes and
addresses are their digits, and structs are objects. -/
def toJson : Value → Option Ty → Json
  | .bool b, _ => .bool b
  | .int word _, _ => .string (toString word.toInt)
  | .uint word _, _ => .string (toString word.toNat)
  | .address a, _ => .string a.checksum
  | .function f, _ => .string (Hex.encode f.toBytes)
  | .fixedBytes word size, _ => .string (Hex.encode (fixedBytesData word size))
  | .bytes data, _ => .string (Hex.encode data)
  | .string s, _ => .string s
  | .array items, ty | .fixedArray items, ty => .array (toJsonAll items (ty.bind Ty.elem?))
  | .tuple items, ty =>
    let members := toJsonMembers items (Ty.memberTypes items.length ty)
    match Ty.structNames? items.length ty with
    | some (_, names) => .ofPairs (names.zip members)
    | none => .array members
  | .struct _ names items, _ =>
    .ofPairs (names.zip (toJsonMembers items (List.replicate items.length none)))

def toJsonAll : List Value → Option Ty → List Json
  | [], _ => []
  | v :: vs, ty => v.toJson ty :: toJsonAll vs ty

def toJsonMembers : List Value → List (Option Ty) → List Json
  | v :: vs, ty :: tys => v.toJson ty :: toJsonMembers vs tys
  | _, _ => []

end

end Value

namespace Declared

def render (r : Rendering) (d : Declared) : String := d.value.render r (some d.ty)

def text (d : Declared) : String := d.render {}

def toJson (d : Declared) : Json := d.value.toJson (some d.ty)

def toRecord (d : Declared) : Json := .object [("type", .string d.ty.text), ("value", d.toJson)]

def isZero (d : Declared) : Bool := d.value.isZero

end Declared

end EvmInspect
