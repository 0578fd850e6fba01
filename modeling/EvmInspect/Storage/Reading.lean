import EvmInspect.Value.Declared
/-!
# Readings

What a look at a variable shows: a value, the known entries of a mapping, or that there is nothing
to show.
-/

namespace EvmInspect

inductive Key where
  | label (name : String)
  /-- A value of the mapping's key type. -/
  | value (v : Declared)
  /-- Bytes that are no value of that type, such as the digest of a longer key. -/
  | raw (bytes : List UInt8)
deriving DecidableEq, Repr, Inhabited

def Key.text : Key → String
  | .label name => name
  | .value v => v.text
  | .raw bytes => Hex.encode bytes

/-- What a look at a variable shows. -/
inductive Reading where
  | value (v : Declared)
  | mapping (entries : List (Key × Reading))
  /-- The variable is too large to be read. -/
  | truncated
  | invalid (reason : String)
deriving Repr, Inhabited

/-- Entries of a mapping, in the order in which their keys were first set. -/
abbrev Entries := List (Key × Reading)

namespace Reading

def entries : Reading → Entries
  | .mapping entries => entries
  | _ => []

def isZero : Reading → Bool
  | .value v => v.isZero
  | _ => false

mutual

def text : Reading → String
  | .value v => v.text
  | .mapping entries => "\x7b" ++ ", ".intercalate (entryTexts entries) ++ "\x7d"
  | .truncated => "<truncated>"
  | .invalid reason => s!"<invalid: {reason}>"

def entryTexts : List (Key × Reading) → List String
  | [] => []
  | e :: rest => s!"{e.1.text}: {e.2.text}" :: entryTexts rest

end

mutual

def toJson : Reading → Json
  | .value v => v.toJson
  | .mapping entries => .ofPairs (entriesToJson entries)
  | .truncated => .string "<truncated>"
  | .invalid reason => .object [("invalid", .string reason)]

def entriesToJson : List (Key × Reading) → List (String × Json)
  | [] => []
  | e :: rest => (e.1.text, e.2.toJson) :: entriesToJson rest

end

end Reading

namespace Entries

def get? (entries : Entries) (key : Key) : Option Reading := Table.lookup key entries

/-- The first entry whose key has a text. -/
def getByText? (entries : Entries) (text : String) : Option Reading :=
  (entries.find? fun e => e.1.text == text).map Prod.snd

/-- Sets the reading at the end of a path of keys.  Whatever is on the way and is no mapping is
replaced by one; without keys nothing is set. -/
def insertPath (reading : Reading) : List Key → Entries → Entries
  | [], entries => entries
  | [key], entries => Table.insertEntry key reading entries
  | key :: path, entries =>
    let below := match Table.lookup key entries with
      | some r => r.entries
      | none => []
    Table.insertEntry key (.mapping (insertPath reading path below)) entries

def text (entries : Entries) : String := (Reading.mapping entries).text

end Entries

end EvmInspect
