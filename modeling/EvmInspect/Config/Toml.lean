import EvmInspect.Config.Basic
import EvmInspect.Toml.Parser
/-!
# Settings in TOML

A document names the settings that differ from the usual ones; other names mean nothing.
-/

namespace EvmInspect.Config

/-- An entry of a document, or the usual value if there is none. -/
def entryOr {α : Type} (entries : List (String × Toml)) (name : String) (usual : α)
    (read : Toml → Option α) : Option α :=
  match Table.lookup name entries with
  | some v => read v
  | none => some usual

def count? : Toml → Option Nat
  | .integer n => if 0 ≤ n then some n.toNat else none
  | _ => none

def flag? : Toml → Option Bool
  | .boolean b => some b
  | _ => none

def ofToml? (s : String) : Option Config := do
  let usual : Config := {}
  let entries ← Toml.parse? s
  return {
    truncateLimit :=
      ← entryOr entries "storage_truncate_limit" usual.truncateLimit fun v => (count? v).map some
    maxDepth := ← entryOr entries "max_unwind_depth" usual.maxDepth count?
    showStorage := ← entryOr entries "dump_storage_in_repr" usual.showStorage flag?
    childLogs := ← entryOr entries "include_child_logs" usual.childLogs flag? }

inductive LoadFailure where
  | unreadable (path : String)
  /-- The text is no document that describes settings. -/
  | malformed
deriving DecidableEq, Repr

def LoadFailure.message : LoadFailure → String
  | .unreadable path => s!"failed to read configuration file {path}"
  | .malformed => "failed to parse inspector configuration"

def load (s : String) : Except LoadFailure Config :=
  match ofToml? s with
  | some c => .ok c
  | none => .error .malformed

def loadFile (path : String) (content : Option String) : Except LoadFailure Config :=
  match content with
  | some s => load s
  | none => .error (.unreadable path)

end EvmInspect.Config
