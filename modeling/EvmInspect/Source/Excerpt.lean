import EvmInspect.Size
import EvmInspect.Source.Node
import EvmInspect.Text.Lines
/-!
# Excerpts

The lines of a source around a node: the lines of the node are marked, and a caret points at its
column.
-/

namespace EvmInspect.Excerpt

def heading (n : SourceNode) : Option String → String
  | some name => s!"  function \"{name}\", line {n.line}:{n.column}\n"
  | none => s!"  line {n.line}:{n.column}\n"

def lastLine (n : SourceNode) : Nat := max n.endLine n.line

def firstShown (n : SourceNode) : Nat := max (n.line - 1) 1

/-- Last line that is shown, of a source with `count` lines. -/
def lastShown (n : SourceNode) (count : Nat) : Nat := min (Size.add (lastLine n) 1) count

def numbers (first last : Nat) : List Nat :=
  (List.range (last + 1 - first)).map fun i => first + i

def inNode (n : SourceNode) (number : Nat) : Bool := n.line ≤ number && number ≤ lastLine n

def padLeft (width : Nat) (s : String) : String :=
  String.ofList (List.replicate (width - s.length) ' ') ++ s

def textLine (n : SourceNode) (width number : Nat) (text : List Char) : String :=
  let mark := if inNode n number then "--->" else "    "
  s!"  {mark} {padLeft width (toString number)} {String.ofList text}\n"

def caretLine (n : SourceNode) (width : Nat) : String :=
  "  " ++ String.ofList (List.replicate (4 + width + 2 + n.column) '-') ++ "^\n"

/-- What is shown for a line number: the line, and the caret below the node's first line. -/
def shown (n : SourceNode) (width : Nat) (lines : List (List Char)) (number : Nat) : String :=
  match lines[number - 1]? with
  | none => ""
  | some text =>
    textLine n width number text ++ (if number = n.line then caretLine n width else "")

/-- The excerpt of a source around a node, which may lie in a function with a name. -/
def render (source : String) (n : SourceNode) (function : Option String) : String :=
  let lines := Text.lines source.toList
  let last := lastShown n lines.length
  let width := (toString last).length
  let body := (numbers (firstShown n) last).map (shown n width lines)
  String.ofList (Text.trimEnd (heading n function ++ String.join body).toList)

end EvmInspect.Excerpt
