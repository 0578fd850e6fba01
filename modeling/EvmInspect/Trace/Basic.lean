import EvmInspect.Trace.Frame
/-!
# Traces

A trace is the tree of all calls of a transaction, kept as the list of its frames.  A frame that is
added as a root or as a child gets its place in the list as its number, so that every frame stands
behind its parent; children keep the order in which they are added.
-/

namespace EvmInspect

structure Trace where
  /-- The frames in the order in which they were added. -/
  frames : List Frame := []
deriving DecidableEq, Repr, Inhabited

namespace Trace

def push (t : Trace) (f : Frame) : Trace := ⟨t.frames ++ [f]⟩

def pushRoot (t : Trace) (f : Frame) : Trace :=
  t.push { f with id := t.frames.length, parent := none, depth := 0 }

/-- Number of frames above a child of frame `parent`. -/
def childDepth (t : Trace) (parent : Nat) : Nat :=
  match t.frames[parent]? with
  | some p => p.depth + 1
  | none => 0

def pushChild (t : Trace) (parent : Nat) (f : Frame) : Trace :=
  t.push { f with id := t.frames.length, parent := some parent, depth := t.childDepth parent }

/-- The first frame without a parent. -/
def root? (t : Trace) : Option Frame := t.frames.find? fun f => f.parent.isNone

def roots (t : Trace) : List Frame := t.frames.filter fun f => f.parent.isNone

def parent? (t : Trace) (id : Nat) : Option Frame := do
  let f ← t.frames[id]?
  let parent ← f.parent
  t.frames[parent]?

def children (t : Trace) (id : Nat) : List Frame := t.frames.filter fun f => f.parent == some id

def lastChild? (t : Trace) (id : Nat) : Option Frame :=
  t.frames.reverse.find? fun f => f.parent == some id

/-- Frame `id` and all frames below it, each before its children, down to `height` levels. -/
def subtreeWithin (t : Trace) : (height id : Nat) → List Frame
  | 0, _ => []
  | height + 1, id =>
    match t.frames[id]? with
    | none => []
    | some f => f :: (t.children id).flatMap fun c => t.subtreeWithin height c.id

/-- Frame `id` and all frames below it, each before its children.  A trace of `n` frames has at most
`n` levels. -/
def subtree (t : Trace) (id : Nat) : List Frame := t.subtreeWithin (t.frames.length + 1) id

end Trace

end EvmInspect
