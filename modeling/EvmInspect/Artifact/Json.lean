import EvmInspect.Artifact.Basic
import EvmInspect.Json.Parser
import EvmInspect.Ty.Parser
/-!
# Compiler output as JSON

The form in which the compiler hands out its results.  All but names may be left out.
-/

namespace EvmInspect

def Ty.toJson (t : Ty) : Json := .string t.text

def Ty.ofJson? (j : Json) : Option Ty := j.string?.bind fun s => (Ty.parse s).toOption

namespace VariableLocation

def toJson : VariableLocation → Json
  | .storage slot => .object [("storage", .object [("slot", .ofNat slot)])]
  | .immutable offset => .object [("immutable", .object [("offset", .ofNat offset)])]
  | .constant => .string "constant"

def ofJson? (j : Json) : Option VariableLocation := do
  match ← j.alternative? with
  | ("storage", some content) => do
    let fields ← content.fields? ["slot"]
    return .storage (← fields.required "slot" Json.size?)
  | ("immutable", some content) => do
    let fields ← content.fields? ["offset"]
    return .immutable (← fields.required "offset" Json.size?)
  | ("constant", none) => some .constant
  | ("constant", some .null) => some .constant
  | _ => none

end VariableLocation

namespace Variable

def toJson (v : Variable) : Json :=
  .object [("name", .string v.name), ("type", v.ty.toJson), ("location", v.location.toJson)]

def ofJson? (j : Json) : Option Variable := do
  let fields ← j.fields? ["name", "type", "location"]
  return {
    name := ← fields.required "name" Json.string?
    ty := ← fields.required "type" Ty.ofJson?
    location := ← fields.required "location" VariableLocation.ofJson? }

end Variable

namespace Argument

def toJson (a : Argument) : Json := .object [("name", .string a.name), ("type", a.ty.toJson)]

def ofJson? (j : Json) : Option Argument := do
  let fields ← j.fields? ["name", "type"]
  return {
    name := ← fields.required "name" Json.string?
    ty := ← fields.required "type" Ty.ofJson? }

end Argument

namespace DataLocation

def word : DataLocation → String
  | .memory => "memory"
  | .storage => "storage"
  | .transient => "transient"
  | .calldata => "calldata"
  | .code => "code"

def ofJson? (j : Json) : Option DataLocation := do
  let name ← j.plain?
  [memory, storage, transient, calldata, code].find? fun l => l.word == name

end DataLocation

namespace LocalVariable

def toJson (v : LocalVariable) : Json :=
  .object
    [("name", .string v.name), ("location", .string v.location.word), ("pos", .ofNat v.position),
     ("type", v.ty.toJson)]

def ofJson? (j : Json) : Option LocalVariable := do
  let fields ← j.fields? ["name", "location", "pos", "type"]
  return {
    name := ← fields.required "name" Json.string?
    location := ← fields.required "location" DataLocation.ofJson?
    position := ← fields.required "pos" Json.size?
    ty := ← fields.required "type" Ty.ofJson? }

end LocalVariable

namespace FrameLayout

def toJson (l : FrameLayout) : Json :=
  .object
    [("frame_start", .ofNat l.start), ("frame_size", .ofNat l.size),
     ("frame_vars", .array (l.localVariables.map LocalVariable.toJson))]

def ofJson? (j : Json) : Option FrameLayout := do
  let fields ← j.fields? ["frame_start", "frame_size", "frame_vars"]
  return {
    start := ← fields.required "frame_start" Json.size?
    size := ← fields.required "frame_size" Json.size?
    localVariables := ← fields.orElse "frame_vars" [] (Json.list? LocalVariable.ofJson?) }

end FrameLayout

namespace Visibility

def word : Visibility → String
  | .external => "external"
  | .internal => "internal"

def ofJson? (j : Json) : Option Visibility := do
  let name ← j.plain?
  [external, internal].find? fun v => v.word == name

end Visibility

namespace Mutability

def word : Mutability → String
  | .pure => "pure"
  | .view => "view"
  | .nonpayable => "nonpayable"
  | .payable => "payable"

def ofJson? (j : Json) : Option Mutability := do
  let name ← j.plain?
  [pure, view, nonpayable, payable].find? fun m => m.word == name

end Mutability

namespace FunctionRole

def word : FunctionRole → String
  | .regular => "regular"
  | .constructor => "constructor"
  | .fallback => "fallback"

def ofJson? (j : Json) : Option FunctionRole := do
  let name ← j.plain?
  [regular, constructor, fallback].find? fun r => r.word == name

end FunctionRole

namespace FunctionDecl

def toJson (f : FunctionDecl) : Json :=
  .object
    [("name", .string f.name), ("visibility", .string f.visibility.word),
     ("mutability", .string f.mutability.word),
     ("positional_args", .array (f.required.map Argument.toJson)),
     ("keyword_args", .array (f.defaulted.map Argument.toJson)),
     ("return_type", .ofOption Ty.toJson f.result),
     ("frame_info", .ofOption FrameLayout.toJson f.layout), ("kind", .string f.role.word)]

def ofJson? (j : Json) : Option FunctionDecl := do
  let fields ← j.fields?
    ["name", "visibility", "mutability", "positional_args", "keyword_args", "return_type",
     "frame_info", "kind"]
  return {
    name := ← fields.required "name" Json.string?
    visibility := ← fields.orElse "visibility" .external Visibility.ofJson?
    mutability := ← fields.orElse "mutability" .nonpayable Mutability.ofJson?
    required := ← fields.orElse "positional_args" [] (Json.list? Argument.ofJson?)
    defaulted := ← fields.orElse "keyword_args" [] (Json.list? Argument.ofJson?)
    result := ← fields.optionalOrNone "return_type" Ty.ofJson?
    layout := ← fields.optionalOrNone "frame_info" FrameLayout.ofJson?
    role := ← fields.orElse "kind" .regular FunctionRole.ofJson? }

end FunctionDecl

namespace EventArgument

def toJson (a : EventArgument) : Json :=
  .object [("name", .string a.name), ("type", a.ty.toJson), ("indexed", .bool a.indexed)]

def ofJson? (j : Json) : Option EventArgument := do
  let fields ← j.fields? ["name", "type", "indexed"]
  return {
    name := ← fields.required "name" Json.string?
    ty := ← fields.required "type" Ty.ofJson?
    indexed := ← fields.orElse "indexed" false Json.bool? }

end EventArgument

namespace EventDecl

def toJson (e : EventDecl) : Json :=
  .object
    [("name", .string e.name), ("inputs", .array (e.arguments.map EventArgument.toJson))]

def ofJson? (j : Json) : Option EventDecl := do
  let fields ← j.fields? ["name", "inputs"]
  return {
    name := ← fields.required "name" Json.string?
    arguments := ← fields.orElse "inputs" [] (Json.list? EventArgument.ofJson?) }

end EventDecl

namespace Artifact

def toJson (a : Artifact) : Json :=
  .object
    [("contract_name", .string a.name), ("compiler_version", .string a.compiler),
     ("source_code", .string a.source), ("bytecode", .ofBytes a.initCode),
     ("bytecode_runtime", .ofBytes a.code), ("source_map", a.sourceMap.toJson),
     ("ast", .array (a.nodes.map SourceNode.toJson)),
     ("variables", .array (a.stateVariables.map Variable.toJson)),
     ("functions", .array (a.functions.map FunctionDecl.toJson)),
     ("events", .array (a.events.map EventDecl.toJson)),
     ("immutable_section_bytes", .ofNat a.immutablesSize)]

def ofJson? (j : Json) : Option Artifact := do
  let fields ← j.fields?
    ["contract_name", "compiler_version", "source_code", "bytecode", "bytecode_runtime",
     "source_map", "ast", "variables", "functions", "events", "immutable_section_bytes"]
  return {
    name := ← fields.required "contract_name" Json.string?
    compiler := ← fields.orElse "compiler_version" "" Json.string?
    source := ← fields.orElse "source_code" "" Json.string?
    initCode := ← fields.orElse "bytecode" [] Json.bytes?
    code := ← fields.orElse "bytecode_runtime" [] Json.bytes?
    sourceMap := ← fields.orElse "source_map" {} SourceMap.ofJson?
    nodes := ← fields.orElse "ast" [] (Json.list? SourceNode.ofJson?)
    stateVariables := ← fields.orElse "variables" [] (Json.list? Variable.ofJson?)
    functions := ← fields.orElse "functions" [] (Json.list? FunctionDecl.ofJson?)
    events := ← fields.orElse "events" [] (Json.list? EventDecl.ofJson?)
    immutablesSize := ← fields.orElse "immutable_section_bytes" 0 Json.size? }

def parse? (s : String) : Option Artifact := (Json.parse s).bind ofJson?

inductive LoadFailure where
  | unreadable (path : String)
  /-- The text is no document that describes compiler output. -/
  | malformed
deriving DecidableEq, Repr

def LoadFailure.message : LoadFailure → String
  | .unreadable path => s!"failed to read artifact {path}"
  | .malformed => "failed to parse compiled artifact"

def load (s : String) : Except LoadFailure Artifact :=
  match parse? s with
  | some a => .ok a
  | none => .error .malformed

def loadFile (path : String) (content : Option String) : Except LoadFailure Artifact :=
  match content with
  | some s => load s
  | none => .error (.unreadable path)

end Artifact

end EvmInspect
