import EvmInspect.Address
import EvmInspect.Trace.Basic
/-!
# Trace trees as text

Every frame takes one line, behind bars and corners that tell its place in the tree.  Long call data
and logs follow on lines of their own.
-/

namespace EvmInspect.Trace

/-- Text of an address; the zero address is cut short. -/
def addressText (a : Address) : String := if a = 0 then "0x0" else a.hex

/-- Text of bytes; of more than four only the first four and their number. -/
def dataText (data : List UInt8) : String :=
  if data.length ≤ 4 then Hex.encode data
  else s!"{Hex.encode (data.take 4)}… [{data.length} bytes]"

/-- Text of a log: the start of its first topic and the sizes of the rest. -/
def logText (log : Log) : String :=
  match log.topics with
  | [] => s!"anonymous ({log.data.length} bytes data)"
  | topic :: rest =>
    s!"{Hex.encode (topic.toBytes.take 4)}... ({rest.length} indexed, {log.data.length} bytes data)"

def padRight (width : Nat) (s : String) : String :=
  s ++ String.ofList (List.replicate (width - s.length) ' ')

def outcomeText : Option VmError → String
  | some (.revert output) => s!" ✗ revert {dataText output}"
  | some (.halt reason) => s!" ✗ {reason.name}"
  | none => " ✓"

def frameText (f : Frame) : String :=
  s!"{padRight 12 f.kind.label} {addressText f.caller} → {addressText f.code}" ++
    outcomeText f.error

/-- Bars before a line: for each level above, whether the frame there is the last of its
siblings. -/
def bars (levels : List Bool) : String :=
  String.join (levels.map fun isLast => if isLast then "    " else "│   ")

def corner (isLast : Bool) : String := if isLast then "└── " else "├── "

/-- The first line of a frame: bars, corner and frame.  A root has neither bars nor corner. -/
def headerLine (levels : List Bool) (indent : Nat) (isLast : Bool) (f : Frame) : String :=
  bars levels ++ (if indent = 0 then "" else corner isLast) ++ frameText f ++ "\n"

def detailLines (indent : Nat) (f : Frame) : List String :=
  let padding := String.ofList (List.replicate (4 * (indent + 1)) ' ')
  (if 4 < f.input.length then [s!"{padding}└ Calldata: {dataText f.input}\n"] else []) ++
    f.logs.map fun log => s!"{padding}• log #{log.id}: {logText log}\n"

/-- Frames, each with whether it is the last one. -/
def markLast : List Frame → List (Frame × Bool)
  | [] => []
  | f :: rest => (f, rest.isEmpty) :: markLast rest

def linesWithin (t : Trace) :
    (height : Nat) → (levels : List Bool) → (indent : Nat) → (isLast : Bool) → Frame → List String
  | 0, _, _, _, _ => []
  | height + 1, levels, indent, isLast, f =>
    let below := if indent = 0 then levels else levels ++ [isLast]
    headerLine levels indent isLast f :: detailLines indent f ++
      (markLast (t.children f.id)).flatMap fun c =>
        t.linesWithin height below (indent + 1) c.2 c.1

def treeText (t : Trace) : String :=
  match t.roots with
  | [] => "<empty trace>\n"
  | roots =>
    String.join ((markLast roots).flatMap fun r => t.linesWithin (t.frames.length + 1) [] 0 r.2 r.1)

end EvmInspect.Trace
