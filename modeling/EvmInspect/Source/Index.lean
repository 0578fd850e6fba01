import EvmInspect.Source.Node
import EvmInspect.Trace.Frame
/-!
# From code to source

A failure belongs to the source node of the last instruction that has one.  From there the parents
lead to the enclosing function and to the check that failed.
-/

namespace EvmInspect

structure SourceIndex where
  /-- What the compiler says about places in the code. -/
  map : SourceMap := {}
  nodes : Table Nat SourceNode := {}

namespace SourceIndex

/-- Index of the compiler's maps and of the nodes; of nodes with one number the last one counts. -/
def build (map : SourceMap) (nodes : List SourceNode) : SourceIndex :=
  ⟨map, Table.ofList (nodes.map fun n => (n.id, n))⟩

def node? (x : SourceIndex) (id : Nat) : Option SourceNode := x.nodes.get? id

/-- The first result that places in the code give, the most recent place first. -/
def lastPlace {α : Type} (look : Nat → Option α) (visited : List Nat) : Option α :=
  visited.reverse.findSome? look

/-- The node that a frame's failure belongs to.  If the frame names a node, that one is meant,
whether there is such a node or not. -/
def nodeOf? (x : SourceIndex) (f : Frame) : Option SourceNode :=
  match f.source.bind SourceOverride.node with
  | some id => x.node? id
  | none => lastPlace (fun place => (x.map.nodes.get? place).bind x.node?) f.visited

def detailOf? (x : SourceIndex) (f : Frame) : Option String :=
  match f.source.bind SourceOverride.detail with
  | some detail => some detail
  | none => lastPlace x.map.details.get? f.visited

def parentOf? (x : SourceIndex) (n : SourceNode) : Option SourceNode := n.parent.bind x.node?

def chain (x : SourceIndex) : (count : Nat) → SourceNode → List SourceNode
  | 0, n => [n]
  | count + 1, n =>
    n :: match x.parentOf? n with
      | some p => x.chain count p
      | none => []

/-- A node and its ancestors, the node first.  If the parents run in a circle, the list ends after
one more node than the tree has. -/
def ancestors (x : SourceIndex) (n : SourceNode) : List SourceNode := x.chain x.nodes.size n

/-- The closest node of one of some kinds among a node and its ancestors. -/
def closest? (x : SourceIndex) (kinds : List String) (n : SourceNode) : Option SourceNode :=
  (x.ancestors n).find? fun a => kinds.contains a.kind

def functionKind : String := "FunctionDef"

def checkKinds : List String := ["Assert", "Raise"]

def functionOf? (x : SourceIndex) (n : SourceNode) : Option SourceNode :=
  x.closest? [functionKind] n

def checkOf? (x : SourceIndex) (n : SourceNode) : Option SourceNode := x.closest? checkKinds n

end SourceIndex

end EvmInspect
