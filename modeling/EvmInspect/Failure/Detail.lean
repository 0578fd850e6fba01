import EvmInspect.Abi.Signature
import EvmInspect.Artifact.Basic
import EvmInspect.Layout.Decode
import EvmInspect.Listing
import EvmInspect.Run
import EvmInspect.Source.Remark
import EvmInspect.Source.Excerpt
/-!
# Failures of frames

Why one frame failed: what the machine says, what the compiler and the developer say about the place
in the source, and what the function's variables were.
-/

namespace EvmInspect

inductive LocalsFailure where
  /-- The frame's failure belongs to no source node. -/
  | noSource
  /-- The source node is in no function that has a name. -/
  | noFunction (node : Nat)
  | unknownFunction (name : String)
  /-- The function's memory is not known. -/
  | noLayout (name : String)
deriving DecidableEq, Repr

def LocalsFailure.message : LocalsFailure → String
  | .noSource => "no source location for the failing frame"
  | .noFunction node => s!"AST node {node} is not inside a function"
  | .unknownFunction name => s!"function \x60{name}\x60 is not declared"
  | .noLayout name => s!"function \x60{name}\x60 has no frame layout"

namespace Artifact

def functionName? (a : Artifact) (n : SourceNode) : Option String :=
  (a.index.functionOf? n).bind SourceNode.name

/-- The value of a variable, if it lies in the frame's memory and can be decoded. -/
def readLocal? (f : Frame) (v : LocalVariable) : Run (Option (String × Declared)) :=
  if v.location = .memory then
    match Layout.decodeDeclared (.ofMemory f.memory) v.ty v.position with
    | .ok d => some (some (v.name, d))
    | .error fault => if fault.stops then none else some none
  else some none

def readLocals (name : String) (layout : FrameLayout) (f : Frame) : Run (Listing Declared) := do
  let found ← layout.localVariables.mapM (readLocal? f)
  return .ofList name (found.filterMap id)

def locals (a : Artifact) (f : Frame) : Guarded LocalsFailure (Listing Declared) :=
  match a.index.nodeOf? f with
  | none => .of (.error .noSource)
  | some node =>
    match a.functionName? node with
    | none => .of (.error (.noFunction node.id))
    | some name =>
      match a.function? name with
      | none => .of (.error (.unknownFunction name))
      | some decl =>
        match decl.layout with
        | none => .of (.error (.noLayout name))
        | some layout => .ofRun (readLocals name layout f)

end Artifact

structure Attribution where
  node : SourceNode
  /-- Name of the function around it. -/
  function : Option String := none
  /-- The node is in a check that the source states. -/
  inCheck : Bool := false
  excerpt : String := ""
deriving DecidableEq, Repr, Inhabited

def Attribution.of (a : Artifact) (n : SourceNode) : Attribution :=
  let function := a.functionName? n
  { node := n, function, inCheck := (a.index.checkOf? n).isSome
    excerpt := Excerpt.render a.source n function }

namespace VmError

def textSelector : List UInt8 := [0x08, 0xc3, 0x79, 0xa0]

/-- The text that a standard payload carries. -/
def payloadText? (output : List UInt8) : Option String :=
  if output.take 4 = textSelector then
    match Abi.decodeSignature "(string)" (output.drop 4) with
    | .ok (.string s :: _) => some s
    | _ => none
  else none

def text : VmError → String
  | .revert output =>
    match payloadText? output with
    | some s => s
    | none => s!"Revert({Hex.encode output})"
  | .halt reason => reason.name

end VmError

structure FailureDetail where
  address : Address := 0
  error : VmError
  /-- The contract as it is shown. -/
  contract : String := ""
  detail : Option String := none
  remark : Option Remark := none
  locals : Option (Listing Declared) := none
  source : Option Attribution := none
deriving Repr

namespace FailureDetail

def ofFrame (a : Artifact) (f : Frame) (error : VmError) (contract : String) :
    Run FailureDetail :=
  (a.locals f).run.map fun found =>
    let node := a.index.nodeOf? f
    { address := f.code
      error
      contract
      detail := a.index.detailOf? f
      remark := node.bind fun n => Remark.find? a.source n.line n.endLine
      locals := found.toOption
      source := node.map (Attribution.of a) }

def unattributed (f : Frame) (error : VmError) : FailureDetail :=
  { address := f.code
    error
    contract := s!"<Unknown location in unknown contract {f.code.checksum}>" }

def text (d : FailureDetail) : String :=
  d.contract ++ "\n" ++
    (match d.detail with
      | some s => s!" <compiler: {s}>"
      | none => "") ++
    (match d.source with
      | some s => "\n" ++ s.excerpt
      | none => "") ++
    (match d.locals with
      | some l => if l.isEmpty then "" else " " ++ l.textAs Declared.text "locals"
      | none => "")

end FailureDetail

/-- The frames that a failure went through, from where it arose to where it came out. -/
structure Backtrace where
  frames : List FailureDetail := []
deriving Repr

namespace Backtrace

def innermost? (b : Backtrace) : Option FailureDetail := b.frames.head?

def outermost? (b : Backtrace) : Option FailureDetail := b.frames.getLast?

def text (b : Backtrace) : String := "\n\n".intercalate (b.frames.map FailureDetail.text)

end Backtrace

end EvmInspect
