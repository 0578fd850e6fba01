import EvmInspect.Json.Record
import EvmInspect.Trace.Basic
/-!
# Traces as JSON

The form in which traces are stored: a record for each frame, with the alternatives of a choice
named in the document.
-/

namespace EvmInspect

def CallKind.toJson : CallKind → Json
  | .call scheme =>
    let name := match scheme with
      | .call => "Call"
      | .callCode => "CallCode"
      | .delegateCall => "DelegateCall"
      | .staticCall => "StaticCall"
    .object [("Call", .string name)]
  | .create .create => .object [("Create", .string "Create")]
  | .create (.create2 salt) =>
    .object [("Create", .object [("Create2", .object [("salt", .ofNumber256 salt)])])]
  | .create (.custom address) =>
    .object [("Create", .object [("Custom", .object [("address", .ofAddress address)])])]

def CallScheme.ofJson? (j : Json) : Option CallScheme := do
  match ← j.plain? with
  | "Call" => some .call
  | "CallCode" => some .callCode
  | "DelegateCall" => some .delegateCall
  | "StaticCall" => some .staticCall
  | _ => none

def CreateScheme.ofJson? (j : Json) : Option CreateScheme := do
  match ← j.alternative? with
  | ("Create", none) => some .create
  | ("Create", some .null) => some .create
  | ("Create2", some content) => do
    let fields ← content.objectFields? ["salt"]
    return .create2 (← fields.required "salt" Json.number256?)
  | ("Custom", some content) => do
    let fields ← content.objectFields? ["address"]
    return .custom (← fields.required "address" Json.address?)
  | _ => none

def CallKind.ofJson? (j : Json) : Option CallKind := do
  match ← j.alternative? with
  | ("Call", some content) => (CallScheme.ofJson? content).map .call
  | ("Create", some content) => (CreateScheme.ofJson? content).map .create
  | _ => none

def VmError.toJson : VmError → Json
  | .revert output => .object [("Revert", .object [("output", .ofBytes output)])]
  | .halt reason => .object [("Halt", .object [("result", .string reason.name)])]

def VmError.ofJson? (j : Json) : Option VmError := do
  match ← j.alternative? with
  | ("Revert", some content) => do
    let fields ← content.objectFields? ["output"]
    return .revert (← fields.required "output" Json.bytes?)
  | ("Halt", some content) => do
    let fields ← content.objectFields? ["result"]
    return .halt (← fields.required "result" fun j => j.plain?.bind Halt.ofName?)
  | _ => none

def Log.toJson (log : Log) : Json :=
  .object [("log_id", .ofNat log.id), ("log", .object
    [("address", .ofAddress log.address), ("topics", .array (log.topics.map .ofWord)),
     ("data", .ofBytes log.data)])]

def Log.ofJson? (j : Json) : Option Log := do
  let fields ← j.fields? ["log_id", "log"]
  let id ← fields.required "log_id" Json.size?
  let content ← fields.required "log" (Json.objectFields? ["address", "topics", "data"])
  let address ← content.required "address" Json.address?
  let topics ← content.required "topics" (Json.list? Json.word?)
  let data ← content.required "data" Json.bytes?
  return ⟨id, address, topics, data⟩

def SourceOverride.toJson (o : SourceOverride) : Json :=
  .object [("node_id", .ofOption .ofNat o.node), ("error_detail", .ofOption .string o.detail)]

def SourceOverride.ofJson? (j : Json) : Option SourceOverride := do
  let fields ← j.fields? ["node_id", "error_detail"]
  let node ← fields.optional "node_id" Json.size?
  let detail ← fields.optional "error_detail" Json.string?
  return ⟨node, detail⟩

def Frame.toJson (f : Frame) : Json :=
  .object
    [("id", .ofNat f.id), ("parent_id", .ofOption .ofNat f.parent), ("depth", .ofNat f.depth),
     ("call_type", f.kind.toJson), ("caller", .ofAddress f.caller),
     ("code_address", .ofAddress f.code), ("input", .ofBytes f.input),
     ("output", .ofBytes f.output), ("error", .ofOption VmError.toJson f.error),
     ("visited_pcs", .array (f.visited.map .ofNat)), ("memory", .ofBytes f.memory),
     ("logs", .array (f.logs.map Log.toJson)),
     ("source_override", .ofOption SourceOverride.toJson f.source),
     ("contract_repr_before_revert", .ofOption .string f.contractText)]

def Frame.ofJson? (j : Json) : Option Frame := do
  let fields ← j.fields?
    ["id", "parent_id", "depth", "call_type", "caller", "code_address", "input", "output", "error",
     "visited_pcs", "memory", "logs", "source_override", "contract_repr_before_revert"]
  return {
    id := ← fields.required "id" Json.size?
    parent := ← fields.optional "parent_id" Json.size?
    depth := ← fields.required "depth" Json.size?
    kind := ← fields.required "call_type" CallKind.ofJson?
    caller := ← fields.required "caller" Json.address?
    code := ← fields.required "code_address" Json.address?
    input := ← fields.required "input" Json.bytes?
    output := ← fields.required "output" Json.bytes?
    error := ← fields.optional "error" VmError.ofJson?
    visited := ← fields.required "visited_pcs" (Json.list? Json.size?)
    memory := ← fields.required "memory" Json.bytes?
    logs := ← fields.required "logs" (Json.list? Log.ofJson?)
    source := ← fields.optional "source_override" SourceOverride.ofJson?
    contractText := ← fields.optional "contract_repr_before_revert" Json.string? }

namespace Trace

def toJson (t : Trace) : Json := .object [("inner", .array (t.frames.map Frame.toJson))]

def ofJson? (j : Json) : Option Trace := do
  let fields ← j.fields? ["inner"]
  return ⟨← fields.required "inner" (Json.list? Frame.ofJson?)⟩

end Trace

end EvmInspect
