import EvmInspect.Word
/-!
# Call frames

What the virtual machine records of one call: who called what, how it ended, which instructions ran,
the memory it left, and the logs it wrote.
-/

namespace EvmInspect

inductive CallScheme where
  /-- A call in the callee's own account. -/
  | call
  /-- A call of other code in the caller's account. -/
  | callCode
  /-- The same, with the caller's caller kept. -/
  | delegateCall
  /-- A call that may not change state. -/
  | staticCall
deriving DecidableEq, Repr

inductive CreateScheme where
  /-- At an address that the creator's count gives. -/
  | create
  /-- At an address that a salt gives. -/
  | create2 (salt : Word)
  | custom (address : Address)
deriving DecidableEq, Repr

inductive CallKind where
  | call (scheme : CallScheme)
  | create (scheme : CreateScheme)
deriving DecidableEq, Repr

def CallKind.label : CallKind → String
  | .call .call => "CALL"
  | .call .callCode => "CALLCODE"
  | .call .delegateCall => "DELEGATECALL"
  | .call .staticCall => "STATICCALL"
  | .create .create => "CREATE"
  | .create (.create2 _) => "CREATE2"
  | .create (.custom _) => "CREATE_CUSTOM"

inductive Halt where
  | stop | returned | selfDestruct
  | reverted | callTooDeep | outOfFunds | createInitCodeStartingEF00 | invalidEOFInitCode
  | invalidExtDelegateCallTarget
  | outOfGas | memoryOOG | memoryLimitOOG | precompileOOG | invalidOperandOOG | reentrancySentryOOG
  | opcodeNotFound | callNotAllowedInsideStatic | stateChangeDuringStaticCall | invalidFEOpcode
  | invalidJump | notActivated | stackUnderflow | stackOverflow | outOfOffset | createCollision
  | overflowPayment | precompileError | nonceOverflow | createContractSizeLimit
  | createContractStartingWithEF | createInitCodeSizeLimit | fatalExternalError
  | invalidImmediateEncoding
deriving DecidableEq, Repr

namespace Halt

def name : Halt → String
  | stop => "Stop"
  | returned => "Return"
  | selfDestruct => "SelfDestruct"
  | reverted => "Revert"
  | callTooDeep => "CallTooDeep"
  | outOfFunds => "OutOfFunds"
  | createInitCodeStartingEF00 => "CreateInitCodeStartingEF00"
  | invalidEOFInitCode => "InvalidEOFInitCode"
  | invalidExtDelegateCallTarget => "InvalidExtDelegateCallTarget"
  | outOfGas => "OutOfGas"
  | memoryOOG => "MemoryOOG"
  | memoryLimitOOG => "MemoryLimitOOG"
  | precompileOOG => "PrecompileOOG"
  | invalidOperandOOG => "InvalidOperandOOG"
  | reentrancySentryOOG => "ReentrancySentryOOG"
  | opcodeNotFound => "OpcodeNotFound"
  | callNotAllowedInsideStatic => "CallNotAllowedInsideStatic"
  | stateChangeDuringStaticCall => "StateChangeDuringStaticCall"
  | invalidFEOpcode => "InvalidFEOpcode"
  | invalidJump => "InvalidJump"
  | notActivated => "NotActivated"
  | stackUnderflow => "StackUnderflow"
  | stackOverflow => "StackOverflow"
  | outOfOffset => "OutOfOffset"
  | createCollision => "CreateCollision"
  | overflowPayment => "OverflowPayment"
  | precompileError => "PrecompileError"
  | nonceOverflow => "NonceOverflow"
  | createContractSizeLimit => "CreateContractSizeLimit"
  | createContractStartingWithEF => "CreateContractStartingWithEF"
  | createInitCodeSizeLimit => "CreateInitCodeSizeLimit"
  | fatalExternalError => "FatalExternalError"
  | invalidImmediateEncoding => "InvalidImmediateEncoding"

def all : List Halt :=
  [stop, returned, selfDestruct, reverted, callTooDeep, outOfFunds, createInitCodeStartingEF00,
   invalidEOFInitCode, invalidExtDelegateCallTarget, outOfGas, memoryOOG, memoryLimitOOG,
   precompileOOG, invalidOperandOOG, reentrancySentryOOG, opcodeNotFound,
   callNotAllowedInsideStatic, stateChangeDuringStaticCall, invalidFEOpcode, invalidJump,
   notActivated, stackUnderflow, stackOverflow, outOfOffset, createCollision, overflowPayment,
   precompileError, nonceOverflow, createContractSizeLimit, createContractStartingWithEF,
   createInitCodeSizeLimit, fatalExternalError, invalidImmediateEncoding]

def ofName? (s : String) : Option Halt := all.find? fun h => h.name == s

end Halt

inductive VmError where
  /-- The code gave up and returned some bytes. -/
  | revert (output : List UInt8)
  | halt (reason : Halt)
deriving DecidableEq, Repr

structure Log where
  /-- Place in the order of all logs of the transaction. -/
  id : Nat := 0
  address : Address := 0
  /-- Words to search for; the first one names the event. -/
  topics : List Word := []
  data : List UInt8 := []
deriving DecidableEq, Repr, Inhabited

/-- Where a failure is said to come from, whatever the instructions say. -/
structure SourceOverride where
  node : Option Nat := none
  /-- The compiler's word for the failure. -/
  detail : Option String := none
deriving DecidableEq, Repr, Inhabited

structure Frame where
  /-- Its number, which is its place in the trace. -/
  id : Nat := 0
  parent : Option Nat := none
  depth : Nat := 0
  /-- What kind of frame it is. -/
  kind : CallKind := .call .call
  caller : Address := 0
  code : Address := 0
  input : List UInt8 := []
  output : List UInt8 := []
  /-- How it failed, if it did. -/
  error : Option VmError := none
  /-- Places of the instructions that ran, in order. -/
  visited : List Nat := []
  memory : List UInt8 := []
  /-- Logs that the frame itself wrote. -/
  logs : List Log := []
  /-- Where its failure is said to come from. -/
  source : Option SourceOverride := none
  /-- How the called contract was shown when it failed. -/
  contractText : Option String := none
deriving DecidableEq, Repr, Inhabited

def Frame.failed (f : Frame) : Bool := f.error.isSome

end EvmInspect
