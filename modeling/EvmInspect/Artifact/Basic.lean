import EvmInspect.Abi.Codec
import EvmInspect.Source.Index
/-!
# Compiler output

Everything that the compiler tells about one contract: its code, its syntax tree, and what it
declares with which types and where.
-/

namespace EvmInspect

inductive VariableLocation where
  /-- In storage, from a slot on. -/
  | storage (slot : Nat)
  /-- Behind the deployed code, at an offset. -/
  | immutable (offset : Nat)
  | constant
deriving DecidableEq, Repr, Inhabited

structure Variable where
  name : String
  ty : Ty
  location : VariableLocation
deriving DecidableEq, Repr, Inhabited

structure Argument where
  name : String
  ty : Ty
deriving DecidableEq, Repr, Inhabited

inductive DataLocation where
  | memory | storage | transient | calldata | code
deriving DecidableEq, Repr, Inhabited

structure LocalVariable where
  name : String
  location : DataLocation
  position : Nat
  ty : Ty
deriving DecidableEq, Repr, Inhabited

structure FrameLayout where
  start : Nat := 0
  size : Nat := 0
  localVariables : List LocalVariable := []
deriving DecidableEq, Repr, Inhabited

inductive Visibility where
  | external | internal
deriving DecidableEq, Repr, Inhabited

inductive Mutability where
  | pure | view | nonpayable | payable
deriving DecidableEq, Repr

inductive FunctionRole where
  /-- It is called by its selector. -/
  | regular
  /-- It runs when the contract is created. -/
  | constructor
  /-- It runs when no other function is meant. -/
  | fallback
deriving DecidableEq, Repr, Inhabited

structure FunctionDecl where
  name : String
  visibility : Visibility := .external
  mutability : Mutability := .nonpayable
  required : List Argument := []
  /-- Arguments that have defaults; a call gives the first few of them. -/
  defaulted : List Argument := []
  result : Option Ty := none
  layout : Option FrameLayout := none
  role : FunctionRole := .regular
deriving DecidableEq, Repr

instance : Inhabited FunctionDecl := ⟨{ name := "" }⟩

structure EventArgument where
  name : String
  ty : Ty
  /-- It stands in a topic of its own. -/
  indexed : Bool := false
deriving DecidableEq, Repr, Inhabited

structure EventDecl where
  name : String
  arguments : List EventArgument := []
deriving DecidableEq, Repr, Inhabited

structure Artifact where
  name : String
  compiler : String := ""
  source : String := ""
  initCode : List UInt8 := []
  /-- Code that runs, without the immutables. -/
  code : List UInt8 := []
  /-- What the compiler says about places in the code. -/
  sourceMap : SourceMap := {}
  nodes : List SourceNode := []
  stateVariables : List Variable := []
  functions : List FunctionDecl := []
  events : List EventDecl := []
  /-- Bytes of the immutables behind the code. -/
  immutablesSize : Nat := 0
deriving DecidableEq, Repr

namespace FunctionDecl

def argumentCount (f : FunctionDecl) : Nat := f.required.length + f.defaulted.length

/-- Types of the arguments of a call that gives the first `given` defaulted ones. -/
def argumentTypes (f : FunctionDecl) (given : Nat) : List Ty :=
  (f.required ++ f.defaulted.take given).map Argument.ty

def argumentSignature (f : FunctionDecl) (given : Nat) : Except Abi.Failure String :=
  Abi.tupleSignature (f.argumentTypes given)

def selector (f : FunctionDecl) (given : Nat) : Except Abi.Failure (List UInt8) :=
  (f.argumentSignature given).map fun arguments => Abi.selector (f.name ++ arguments)

end FunctionDecl

namespace EventDecl

def types (e : EventDecl) : List Ty := e.arguments.map EventArgument.ty

def signature (e : EventDecl) : Except Abi.Failure String :=
  (Abi.tupleSignature e.types).map fun arguments => e.name ++ arguments

def id (e : EventDecl) : Except Abi.Failure Word := e.signature.map keccakText

end EventDecl

namespace Artifact

def index (a : Artifact) : SourceIndex := .build a.sourceMap a.nodes

/-- The event whose logs start with a topic; of several the last one. -/
def event? (a : Artifact) (topic : Word) : Option EventDecl :=
  a.events.reverse.find? fun e => e.id.toOption == some topic

def function? (a : Artifact) (name : String) : Option FunctionDecl :=
  a.functions.find? fun f => f.name == name

def variableNamed? (a : Artifact) (name : String) : Option Variable :=
  a.stateVariables.find? fun v => v.name == name

def storageVariables (a : Artifact) : List (Variable × Nat) :=
  a.stateVariables.filterMap fun v =>
    match v.location with
    | .storage slot => some (v, slot)
    | _ => none

def immutables (a : Artifact) : List (Variable × Nat) :=
  a.stateVariables.filterMap fun v =>
    match v.location with
    | .immutable offset => some (v, offset)
    | _ => none

/-- Order of texts by their bytes. -/
def textLe (s t : String) : Bool := decide (¬ t < s)

/-- Names of the functions that can be called from outside, in order. -/
def externalNames (a : Artifact) : List String :=
  ((a.functions.filter fun f => f.visibility == .external).map FunctionDecl.name).mergeSort textLe

end Artifact

end EvmInspect
