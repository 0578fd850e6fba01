import EvmInspect.Abi.Signature
import EvmInspect.Artifact.Json
/-!
# Call interfaces

The interface of a function as other tools read it.  A tuple or struct is written as `tuple` with
its members apart, and array lengths stand behind that word.
-/

namespace EvmInspect

inductive Parameter where
  /-- A parameter of a type in words, perhaps the name of a struct in the source, and the members
  of a tuple. -/
  | mk (name type : String) (internalType : Option String) (components : List Parameter)
deriving Inhabited

structure InterfaceFunction where
  name : String
  inputs : List Parameter
  outputs : List Parameter
  mutability : Mutability

namespace Ty

/-- One of the outer array lengths is zero. -/
def hasZeroLength : Ty → Bool
  | .array elem n => n == 0 || elem.hasZeroLength
  | .dynArray elem _ => elem.hasZeroLength
  | _ => false

end Ty

namespace Parameter

def validName (name : String) : Bool :=
  match AbiType.word? name.toList with
  | some (_, []) => true
  | _ => name.isEmpty

/-- A parameter, unless its name or its type is invalid.  The words of a type with components are
not looked at. -/
def checked (ty : Ty) (name type : String) (internalType : Option String)
    (components : List Parameter) : Except Abi.Failure Parameter :=
  if validName name ∧ (¬components.isEmpty ∨ ¬ty.hasZeroLength) then
    .ok (.mk name type internalType components)
  else .error (.invalidSignature ty.text)

mutual

/-- The parameter of a type whose array lengths, in words, are already off; the whole type and its
name in signatures are given. -/
def ofBase (whole : Ty) (wholeName : Option String) (name lengths : String) :
    Ty → Except Abi.Failure Parameter
  | .tuple members => do
    let components ← ofMembers members
    checked whole name ("tuple" ++ lengths) none components
  | .struct structName fields => do
    let components ← ofFields fields
    checked whole name ("tuple" ++ lengths) (some s!"struct {structName}{lengths}") components
  | .array elem n => ofBase whole wholeName name (s!"[{n}]" ++ lengths) elem
  | .dynArray elem _ => ofBase whole wholeName name ("[]" ++ lengths) elem
  | _ =>
    match wholeName with
    | some type => checked whole name type none []
    | none => .error (.invalidSignature whole.text)

def ofMembers : List Ty → Except Abi.Failure (List Parameter)
  | [] => .ok []
  | t :: ts => do
    let p ← ofBase t t.selectorName? "" "" t
    let ps ← ofMembers ts
    return p :: ps

def ofFields : List (String × Ty) → Except Abi.Failure (List Parameter)
  | [] => .ok []
  | f :: fs => do
    let p ← ofBase f.2 f.2.selectorName? f.1 "" f.2
    let ps ← ofFields fs
    return p :: ps

end

def ofTy (name : String) (ty : Ty) : Except Abi.Failure Parameter :=
  ofBase ty ty.selectorName? name "" ty

mutual

def toJson : Parameter → Json
  | .mk name type internalType components =>
    .object ([("name", .string name), ("type", .string type)] ++
      (match internalType with
        | some t => [("internalType", .string t)]
        | none => []) ++
      (if components.isEmpty then [] else [("components", .array (allToJson components))]))

def allToJson : List Parameter → List Json
  | [] => []
  | p :: ps => p.toJson :: allToJson ps

end

mutual

/-- The parameter's type in a signature: a tuple is written out by its members. -/
def signatureType : Parameter → String
  | .mk _ type _ components =>
    if components.isEmpty then type
    else
      "(" ++ ",".intercalate (signatureTypes components) ++ ")" ++
        String.ofList (type.toList.drop "tuple".length)

def signatureTypes : List Parameter → List String
  | [] => []
  | p :: ps => p.signatureType :: signatureTypes ps

end

end Parameter

namespace InterfaceFunction

def toJson (f : InterfaceFunction) : Json :=
  .object
    [("type", .string "function"), ("name", .string f.name),
     ("inputs", .array (Parameter.allToJson f.inputs)),
     ("outputs", .array (Parameter.allToJson f.outputs)),
     ("stateMutability", .string f.mutability.word)]

def signature (f : InterfaceFunction) : String :=
  f.name ++ "(" ++ ",".intercalate (Parameter.signatureTypes f.inputs) ++ ")"

end InterfaceFunction

namespace FunctionDecl

/-- The results of a function: the members of a tuple, or a single one. -/
def outputs (f : FunctionDecl) : Except Abi.Failure (List Parameter) :=
  match f.result with
  | none => .ok []
  | some (.tuple members) => Parameter.ofMembers members
  | some ty => (Parameter.ofTy "" ty).map fun p => [p]

/-- The interface of a function, with all its defaulted arguments. -/
def interface (f : FunctionDecl) : Except Abi.Failure InterfaceFunction := do
  let inputs ← Parameter.ofFields ((f.required ++ f.defaulted).map fun a => (a.name, a.ty))
  let outputs ← f.outputs
  return ⟨f.name, inputs, outputs, f.mutability⟩

end FunctionDecl

end EvmInspect
