import EvmInspect.Storage.Reading
import EvmInspect.Value.Tagged
/-!
# Tagged forms of readings

In the tagged form of a reading keys stay apart that are written alike, and so do values and what
stands in their place.
-/

namespace EvmInspect

def Key.tagged : Key → Json
  | .label name => .object [("alias", .string name)]
  | .value v => .object [("value", v.tagged)]
  | .raw bytes => .object [("raw", .ofBytes bytes)]

namespace Reading

mutual

def tagged : Reading → Json
  | .value v => .object [("value", v.tagged)]
  | .mapping entries => .object [("mapping", .array (taggedEntries entries))]
  | .truncated => .string "truncated"
  | .invalid reason => .object [("invalid", .string reason)]

def taggedEntries : List (Key × Reading) → List Json
  | [] => []
  | e :: rest => .array [e.1.tagged, e.2.tagged] :: taggedEntries rest

end

end Reading

def Listing.dump (l : Listing Reading) : Json :=
  .object
    [("owner", .string l.owner), ("entries", l.tagged Reading.tagged),
     ("display", .string (l.text Reading.text)), ("json", l.toJson Reading.toJson)]

end EvmInspect
