import EvmInspect.Contract.Call
import EvmInspect.Event
import EvmInspect.Failure.Expectation
import EvmInspect.Storage.Dump
import EvmInspect.Trace.Basic
/-!
# Inspection of an execution

An inspector holds what an execution left behind and the contracts that are known at its addresses.
It answers questions about traces and about the state; it runs nothing.
-/

namespace EvmInspect

structure Inspector where
  config : Config := {}
  recording : Recording := {}
  contracts : Table Address Contract := {}

inductive Refusal where
  /-- Values cannot be encoded or decoded. -/
  | abi (failure : Abi.Failure)
  | call (failure : Contract.CallFailure)
  | event (failure : Event.Failure)
  /-- A failure is not what was expected. -/
  | mismatch (difference : Mismatch)
  | reverted (backtrace : Backtrace)
  | emptyTrace
  | unknownFrame (id : Nat)
  | notFailed (id : Nat)
  /-- No contract is known at the address. -/
  | unknownContract (address : Address)
deriving Repr

def Refusal.message : Refusal → String
  | .abi failure => failure.message
  | .call failure => failure.message
  | .event failure => failure.message
  | .mismatch difference => difference.message
  | .reverted backtrace => "call reverted:\n" ++ backtrace.text
  | .emptyTrace => "execution trace is empty"
  | .unknownFrame id => s!"no frame with id {id}"
  | .notFailed id => s!"frame {id} did not fail"
  | .unknownContract address => s!"no contract registered at {address.checksum}"

namespace Inspector

def contract? (x : Inspector) (address : Address) : Option Contract := x.contracts.get? address

/-- Makes a contract known; another one at its address is forgotten. -/
def register (x : Inspector) (c : Contract) : Inspector :=
  { x with contracts := x.contracts.insert c.address c }

def storageDump (x : Inspector) (c : Contract) : Run (Listing Reading) :=
  x.recording.storageDump x.config c

/-- Reading of the variable of a name; functions and constants have none. -/
def readMember? (x : Inspector) (c : Contract) (name : String) : Run (Option Reading) :=
  match c.member? name with
  | some (.storage v slot) => (x.recording.readVariable x.config c v slot).map some
  | some (.immutable v offset) => (c.readImmutable v offset).map some
  | some (.callable _) | none => some none

/-- A contract as text: its name, address, compiler and creator, and its storage if the settings ask
for it. -/
def contractText (x : Inspector) (c : Contract) : Run String := do
  let text := s!"<{c.name} at {c.address.checksum}, compiled with vyper-{c.artifact.compiler}>" ++
    match c.creator with
    | some creator => s!" (created by {creator.checksum})"
    | none => ""
  if x.config.showStorage then
    let dump ← x.storageDump c
    return if dump.isEmpty then text else text ++ "\n" ++ dump.text Reading.text
  else return text

/-- What the compiler says about a frame that failed because a call or creation in it did. -/
def passedOn : List String :=
  ["external call failed", "returndatasize too small", "create failed", "create2 failed"]

def detailOf (x : Inspector) (f : Frame) (error : VmError) : Run FailureDetail :=
  match x.contract? f.code with
  | some c =>
    match f.contractText with
    | some text => FailureDetail.ofFrame c.artifact f error text
    | none => (x.contractText c).bind fun text => FailureDetail.ofFrame c.artifact f error text
  | none => some (.unattributed f error)

/-- The reason of a frame's failure lies in the last call that it made. -/
def isPassedOn (x : Inspector) (f : Frame) (d : FailureDetail) : Bool :=
  match x.contract? f.code with
  | some _ => d.detail.any passedOn.contains
  | none => true

/-- Walks from a failed frame inwards, through at most `height` frames, and adds what it finds to
the failures found so far: the innermost comes last. -/
def failuresWithin (x : Inspector) (t : Trace) :
    (height : Nat) → Frame → (found : List FailureDetail) → Run (List FailureDetail)
  | 0, _, found => some found
  | height + 1, f, found =>
    match f.error with
    | none => some found
    | some error => do
      let d ← x.detailOf f error
      let found := found ++ [d]
      if x.isPassedOn f d then
        match t.lastChild? f.id with
        | some child => if child.failed then x.failuresWithin t height child found else some found
        | none => some found
      else some found

/-- The frames that the failure of frame `id` went through.  A walk inwards meets no frame twice. -/
def backtraceAt (x : Inspector) (t : Trace) (id : Nat) : Guarded Refusal Backtrace :=
  match t.frames[id]? with
  | none => .of (.error (.unknownFrame id))
  | some f =>
    if f.failed then
      .ofRun ((x.failuresWithin t (t.frames.length + 1) f []).map fun found => ⟨found.reverse⟩)
    else .of (.error (.notFailed id))

def backtrace (x : Inspector) (t : Trace) : Guarded Refusal Backtrace :=
  match t.root? with
  | none => .of (.error .emptyTrace)
  | some root => x.backtraceAt t root.id

def checkFailure (x : Inspector) (t : Trace) (e : Expectation) : Guarded Refusal Unit := do
  let b ← x.backtrace t
  .of ((b.meets e).mapError .mismatch)

def encodeCall (x : Inspector) (address : Address) (function : String) (args : List Value)
    (keywords : List (String × Value)) : Except Refusal (List UInt8) :=
  match x.contract? address with
  | none => .error (.unknownContract address)
  | some c => (c.encodeCall function args keywords).mapError .call

/-- Decodes returned data as a type: the members of a tuple, or a single value. -/
def decodeResult (ty : Ty) (output : List UInt8) : Except Abi.Failure Value :=
  match ty with
  | .tuple members => (Abi.decode members output).map .tuple
  | ty => do
    let values ← Abi.decode [ty] output
    match values.getLast? with
    | some v => return v
    | none => throw (.decoding ty.text .noValue)

def decodeReturn (x : Inspector) (t : Trace) (ty : Option Ty) :
    Guarded Refusal (Option Declared) :=
  match t.root? with
  | none => .of (.error .emptyTrace)
  | some root =>
    if root.failed then do
      let b ← x.backtraceAt t root.id
      .of (.error (.reverted b))
    else
      match ty with
      | none => .of (.ok none)
      | some ty =>
        match decodeResult ty root.output with
        | .ok v => .of (.ok (some ⟨v, ty⟩))
        | .error e => .of (.error (.abi e))

/-- Decodes a log by the contract that wrote it.  The log of an unknown contract, and one that is no
event of its contract, stay as they are. -/
def decodeLog (x : Inspector) (log : Log) : Except Event.Failure DecodedLog :=
  match x.contract? log.address with
  | none => .ok (.raw log)
  | some c =>
    match Event.decode c.artifact log with
    | .ok e => .ok (.event e)
    | .error (.unknown _ _) => .ok (.raw log)
    | .error e => .error e

/-- A frame and all frames below it that did not fail and are not below one that did, down to
`height` levels.  Later calls come first. -/
def succeededWithin (t : Trace) : (height : Nat) → Frame → List Frame
  | 0, _ => []
  | height + 1, f =>
    f :: ((t.children f.id).filter fun c => !c.failed).reverse.flatMap fun c =>
      succeededWithin t height c

/-- The frames whose logs count as those of a root frame. -/
def loggingFrames (x : Inspector) (t : Trace) (root : Frame) : List Frame :=
  if x.config.childLogs then succeededWithin t (t.frames.length + 1) root else [root]

def logs (x : Inspector) (t : Trace) : Except Event.Failure (List DecodedLog) :=
  match t.root? with
  | none => .ok []
  | some root =>
    let written := (x.loggingFrames t root).flatMap Frame.logs
    (written.mergeSort fun a b => a.id ≤ b.id).mapM x.decodeLog

end Inspector

end EvmInspect
