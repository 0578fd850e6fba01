import EvmInspect.Json.Record
/-!
# Settings

What an inspection may be told: how large a value may be that it reads from storage, how deep
mappings may nest, and what it includes in its reports.
-/

namespace EvmInspect

structure Config where
  /-- Storage values of more bytes are not read; nothing is too large without a limit. -/
  truncateLimit : Option Nat := some 1024
  /-- How many keys a storage location may be derived from. -/
  maxDepth : Nat := 256
  /-- A contract is shown with its storage. -/
  showStorage : Bool := true
  /-- The logs of a call include those of the calls it made. -/
  childLogs : Bool := true
deriving DecidableEq, Repr, Inhabited

namespace Config

def toJson (c : Config) : Json :=
  .object
    [("storage_truncate_limit", .ofOption .ofNat c.truncateLimit),
     ("max_unwind_depth", .ofNat c.maxDepth),
     ("dump_storage_in_repr", .bool c.showStorage),
     ("include_child_logs", .bool c.childLogs)]

/-- Settings that a document describes; what it leaves out is as usual. -/
def ofJson? (j : Json) : Option Config := do
  let usual : Config := {}
  let fields ← j.fields?
    ["storage_truncate_limit", "max_unwind_depth", "dump_storage_in_repr", "include_child_logs"]
  return {
    truncateLimit :=
      ← fields.orElse "storage_truncate_limit" usual.truncateLimit (Json.nullable? Json.size?)
    maxDepth := ← fields.orElse "max_unwind_depth" usual.maxDepth Json.size?
    showStorage := ← fields.orElse "dump_storage_in_repr" usual.showStorage Json.bool?
    childLogs := ← fields.orElse "include_child_logs" usual.childLogs Json.bool? }

end Config

end EvmInspect
