import EvmInspect.Abi.Check
import EvmInspect.Abi.Decode
import EvmInspect.Abi.Encode
import EvmInspect.Keccak
import EvmInspect.Ty.Legal
/-!
# Call data of declared types

Encodes and decodes values under their declared types.  Values have to be legal on the way out, and
the data has to pass the strict check and give legal values on the way in.
-/

namespace EvmInspect.Abi

inductive EncodeReason where
  /-- There are more or fewer values than types. -/
  | arity (expected got : Nat)
  /-- A value is not of its type; its type's name is given where it has one. -/
  | otherType (index : Nat) (ty : Ty) (got : Option String)
  | illegal (index : Nat) (reason : Ty.Illegal)
deriving DecidableEq, Repr

def EncodeReason.message : EncodeReason → String
  | .arity expected got => s!"expected {expected} values, got {got}"
  | .otherType index ty got =>
    s!"argument {index}: expected {ty.text}, got " ++ got.getD ""
  | .illegal index reason => s!"argument {index}: {reason.message}"

inductive DecodeReason where
  /-- The data fails the strict check. -/
  | malformed (fault : Fault)
  | unreadable (fault : ReadFault)
  | illegal (index : Nat) (reason : Ty.Illegal)
  /-- One value was wanted and there is none. -/
  | noValue
deriving DecidableEq, Repr

def DecodeReason.message : DecodeReason → String
  | .malformed fault => fault.message
  | .unreadable fault => fault.message
  | .illegal index reason => s!"value {index}: {reason.message}"
  | .noValue => "no value"

inductive Failure where
  /-- Values are not encoded under a signature. -/
  | encoding (signature : String) (reason : EncodeReason)
  /-- Data is not decoded under a signature. -/
  | decoding (signature : String) (reason : DecodeReason)
  /-- A type cannot cross a call boundary, or a signature is none. -/
  | invalidSignature (text : String)
deriving DecidableEq, Repr

def Failure.message : Failure → String
  | .encoding signature reason => s!"cannot encode \x60{signature}\x60: {reason.message}"
  | .decoding signature reason => s!"cannot decode \x60{signature}\x60: {reason.message}"
  | .invalidSignature text => s!"invalid ABI signature \x60{text}\x60"

/-- The program does not report the failure but stops. -/
def Failure.stops : Failure → Bool
  | .decoding _ (.malformed fault) => fault.stops
  | _ => false

def selector (signature : String) : List UInt8 :=
  (Keccak.digestBytes (Text.toUtf8 signature)).take 4

/-- The call types of declared types; the first type without one decides. -/
def abiTypes : List Ty → Except Failure (List AbiType)
  | [] => .ok []
  | t :: ts =>
    match t.abiType? with
    | none => .error (.invalidSignature t.text)
    | some a =>
      match abiTypes ts with
      | .ok as => .ok (a :: as)
      | .error e => .error e

def signatureOf (types : List AbiType) : String :=
  "(" ++ ",".intercalate (AbiType.names types) ++ ")"

def tupleSignature (types : List Ty) : Except Failure String :=
  (abiTypes types).map signatureOf

def checkArguments : (index : Nat) → List Ty → List AbiType → List Value →
    Except EncodeReason Unit
  | index, t :: ts, a :: as, v :: vs =>
    if a.matchesValue v then
      match t.check v with
      | .ok _ => checkArguments (index + 1) ts as vs
      | .error e => .error (.illegal index e)
    else .error (.otherType index t v.typeName?)
  | _, _, _, _ => .ok ()

def encode (types : List Ty) (values : List Value) : Except Failure (List UInt8) := do
  let abi ← abiTypes types
  let fail (reason : EncodeReason) : Failure := .encoding (signatureOf abi) reason
  if types.length = values.length then
    match checkArguments 0 types abi values with
    | .ok _ => return Value.encodeAll values
    | .error reason => throw (fail reason)
  else throw (fail (.arity types.length values.length))

def checkResults : (index : Nat) → List Ty → List Value → Except DecodeReason Unit
  | index, t :: ts, v :: vs =>
    match t.check v with
    | .ok _ => checkResults (index + 1) ts vs
    | .error e => .error (.illegal index e)
  | _, _, _ => .ok ()

/-- The legal values that data encodes. -/
def decodeWith (types : List Ty) (abi : List AbiType) (data : List UInt8) :
    Except DecodeReason (List Value) :=
  match check abi data with
  | .error fault => .error (.malformed fault)
  | .ok _ =>
    match read abi data with
    | .error fault => .error (.unreadable fault)
    | .ok values =>
      match checkResults 0 types values with
      | .ok _ => .ok values
      | .error reason => .error reason

def decode (types : List Ty) (data : List UInt8) : Except Failure (List Value) := do
  let abi ← abiTypes types
  match decodeWith types abi data with
  | .ok values => return values
  | .error reason => throw (.decoding (signatureOf abi) reason)

end EvmInspect.Abi
