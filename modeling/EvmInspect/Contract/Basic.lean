import EvmInspect.Artifact.Basic
/-!
# Contracts

A contract is compiler output together with the place where it is deployed and the code that was
seen there.  Behind the code stand its immutables.
-/

namespace EvmInspect

structure Contract where
  /-- What the compiler tells about it. -/
  artifact : Artifact
  address : Address
  /-- The code that was seen there. -/
  code : List UInt8
  /-- Who created it, if that is known. -/
  creator : Option Address := none
deriving Repr

inductive Member where
  /-- A function that can be called from outside. -/
  | callable (f : FunctionDecl)
  /-- A variable in storage, from a slot on. -/
  | storage (v : Variable) (slot : Nat)
  /-- A variable behind the code, at an offset. -/
  | immutable (v : Variable) (offset : Nat)
deriving DecidableEq, Repr

namespace Contract

def deployed (artifact : Artifact) (address : Address) : Contract :=
  { artifact, address, code := artifact.code }

/-- A contract with the code that was seen at its address, whether or not the compiler made it. -/
def observed (artifact : Artifact) (address : Address) (code : List UInt8) : Contract :=
  { artifact, address, code }

def name (c : Contract) : String := c.artifact.name

/-- The immutables: the end of the code. -/
def immutableBytes (c : Contract) : List UInt8 :=
  c.code.drop (c.code.length - c.artifact.immutablesSize)

/-- The first function of a name that can be called from outside. -/
def function? (c : Contract) (name : String) : Option FunctionDecl :=
  c.artifact.functions.find? fun f => f.name == name && f.visibility == .external

/-- The member of a name; functions come first, and constants are no members. -/
def member? (c : Contract) (name : String) : Option Member :=
  match c.function? name with
  | some f => some (.callable f)
  | none =>
    match c.artifact.variableNamed? name with
    | none => none
    | some v =>
      match v.location with
      | .storage slot => some (.storage v slot)
      | .immutable offset => some (.immutable v offset)
      | .constant => none

end Contract

end EvmInspect
