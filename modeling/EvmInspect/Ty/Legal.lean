import EvmInspect.Ty.Basic
import EvmInspect.Value.Basic
/-!
# Legal values

A legal value of a declared type has its shape, integers in range, and byte strings, texts and
dynamic arrays no longer than declared.  The width that an integer is said to have does not count;
the size of a fixed byte string does.  A struct's value is a tuple of its members.
-/

namespace EvmInspect.Ty

inductive Illegal where
  /-- An unsigned integer needs more bits. -/
  | unsignedRange (word : Word) (bits : Nat)
  /-- A signed integer needs more bits. -/
  | signedRange (word : Word) (bits : Nat)
  /-- A fixed byte string has another size, or set bits behind its end. -/
  | fixedBytes (size : Nat)
  /-- A byte string, text or dynamic array is longer than its type allows. -/
  | tooLong (length : Nat) (ty : Ty)
  /-- An array has another number of elements. -/
  | elementCount (ty : Ty) (expected got : Nat)
  /-- A tuple or struct has another number of members. -/
  | memberCount (ty : Ty) (expected got : Nat)
  /-- The value has another shape; its type's name is given where it has one. -/
  | otherShape (ty : Ty) (got : Option String)
deriving DecidableEq, Repr

def Illegal.message : Illegal → String
  | .unsignedRange word bits => s!"{word.toNat} does not fit in uint{bits}"
  | .signedRange word bits => s!"{word.toInt} does not fit in int{bits}"
  | .fixedBytes size => s!"value does not fit in bytes{size}"
  | .tooLong length ty => s!"length {length} exceeds the bound of {ty.text}"
  | .elementCount ty expected got => s!"expected {expected} elements for {ty.text}, got {got}"
  | .memberCount ty expected got => s!"expected {expected} members for {ty.text}, got {got}"
  | .otherShape ty got => "expected " ++ ty.text ++ ", got " ++ got.getD "value"

def checkUnsigned (word : Word) (bits : Nat) : Except Illegal Unit :=
  if word.fitsUnsigned bits then .ok () else .error (.unsignedRange word bits)

def checkSigned (word : Word) (bits : Nat) : Except Illegal Unit :=
  if word.fitsSigned bits then .ok () else .error (.signedRange word bits)

def checkLength (length bound : Nat) (ty : Ty) : Except Illegal Unit :=
  if length ≤ bound then .ok () else .error (.tooLong length ty)

/-- Each value passes a check; the first that does not decides. -/
def checkEach {ε : Type} (check : Value → Except ε Unit) : List Value → Except ε Unit
  | [] => .ok ()
  | v :: vs =>
    match check v with
    | .ok _ => checkEach check vs
    | .error e => .error e

mutual

def check : Ty → Value → Except Illegal Unit
  | .uint bits, .uint word _ => checkUnsigned word bits
  | .int bits, .int word _ => checkSigned word bits
  | .bool, .bool _ => .ok ()
  | .address, .address _ => .ok ()
  | .fixedBytes n, .fixedBytes word size =>
    if size = n ∧ (word.toBytes.drop n).all (· == 0) then .ok () else .error (.fixedBytes n)
  | .bytes bound, .bytes data => checkLength data.length bound (.bytes bound)
  | .string bound, .string s => checkLength s.utf8ByteSize bound (.string bound)
  | .array elem n, .fixedArray items =>
    if items.length = n then checkEach (check elem) items
    else .error (.elementCount (.array elem n) n items.length)
  | .dynArray elem bound, .array items =>
    if items.length ≤ bound then checkEach (check elem) items
    else .error (.tooLong items.length (.dynArray elem bound))
  | .tuple members, .tuple items =>
    if members.length = items.length then checkMembers members items
    else .error (.memberCount (.tuple members) members.length items.length)
  | .struct name fields, .tuple items =>
    if fields.length = items.length then checkFields fields items
    else .error (.memberCount (.struct name fields) fields.length items.length)
  | ty, value => .error (.otherShape ty value.typeName?)

def checkMembers : List Ty → List Value → Except Illegal Unit
  | t :: ts, v :: vs =>
    match t.check v with
    | .ok _ => checkMembers ts vs
    | .error e => .error e
  | _, _ => .ok ()

def checkFields : List (String × Ty) → List Value → Except Illegal Unit
  | f :: fs, v :: vs =>
    match f.2.check v with
    | .ok _ => checkFields fs vs
    | .error e => .error e
  | _, _ => .ok ()

end

end EvmInspect.Ty
