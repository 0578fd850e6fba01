import EvmInspect.Json.Record
/-!
# Source nodes

The compiler gives the syntax tree of the source as a list of nodes that name their parents, and
tells for places in the code which node they come from and what their failure means.
-/

namespace EvmInspect

structure SourceNode where
  id : Nat
  /-- What kind of node it is. -/
  kind : String
  line : Nat
  /-- Column on the first line, counted from 0. -/
  column : Nat
  endLine : Nat
  /-- Column behind the node on the last line. -/
  endColumn : Nat
  parent : Option Nat := none
  /-- Its name, if it declares one. -/
  name : Option String := none
deriving DecidableEq, Repr, Inhabited

/-- What the compiler says about places in the code. -/
structure SourceMap where
  /-- The node that a place comes from. -/
  nodes : Table Nat Nat := {}
  /-- What a failure at a place means. -/
  details : Table Nat String := {}
deriving DecidableEq, Repr, Inhabited

namespace SourceNode

def toJson (n : SourceNode) : Json :=
  .object
    [("node_id", .ofNat n.id), ("ast_type", .string n.kind), ("lineno", .ofNat n.line),
     ("col_offset", .ofNat n.column), ("end_lineno", .ofNat n.endLine),
     ("end_col_offset", .ofNat n.endColumn), ("parent", .ofOption .ofNat n.parent),
     ("name", .ofOption .string n.name)]

def ofJson? (j : Json) : Option SourceNode := do
  let fields ← j.fields?
    ["node_id", "ast_type", "lineno", "col_offset", "end_lineno", "end_col_offset", "parent",
     "name"]
  return {
    id := ← fields.required "node_id" Json.size?
    kind := ← fields.required "ast_type" Json.string?
    line := ← fields.required "lineno" Json.size?
    column := ← fields.required "col_offset" Json.size?
    endLine := ← fields.required "end_lineno" Json.size?
    endColumn := ← fields.required "end_col_offset" Json.size?
    parent := ← fields.optionalOrNone "parent" Json.size?
    name := ← fields.optionalOrNone "name" Json.string? }

end SourceNode

namespace SourceMap

def tableToJson {α : Type} (write : α → Json) (t : Table Nat α) : Json :=
  .object (t.entries.map fun e => (toString e.1, write e.2))

def toJson (m : SourceMap) : Json :=
  .object [("pc_pos_map", tableToJson .ofNat m.nodes), ("error_map", tableToJson .string m.details)]

def ofJson? (j : Json) : Option SourceMap := do
  let fields ← j.fields? ["pc_pos_map", "error_map"]
  return {
    nodes := ← fields.orElse "pc_pos_map" {} (Json.numericMap? Json.size?)
    details := ← fields.orElse "error_map" {} (Json.numericMap? Json.string?) }

end SourceMap

end EvmInspect
