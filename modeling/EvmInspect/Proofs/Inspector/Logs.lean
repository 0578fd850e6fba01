import EvmInspect.Inspector.Basic
import EvmInspect.Proofs.Event
import EvmInspect.Proofs.Trace.Below
import EvmInspect.Proofs.Trace.Walk
/-!
# Logs of an execution

The logs of an execution are those of the frames that survive: the walk over the call tree meets
each of them once, because no two ways lead to one frame.  They are decoded in their order, up to
the first one that its contract declares and cannot read.
-/

namespace EvmInspect.Inspector

open Relation Walk

variable {t : Trace} {a c f root : Frame}

/-! ## The walk over the call tree -/

def passing (t : Trace) (f : Frame) : List Frame :=
  ((t.children f.id).filter fun c => !c.failed).reverse

theorem succeededWithin_eq (t : Trace) (height : Nat) (f : Frame) :
    succeededWithin t height f = within (passing t) height f := by
  induction height generalizing f with
  | zero => rfl
  | succ height ih =>
    rw [succeededWithin, within, passing]
    exact congrArg (f :: ·) (List.flatMap_congr fun c _ => ih c)

/-- The contract that wrote the log is known and declares its event. -/
structure Declares (x : Inspector) (log : Log) (c : Contract) (decl : EventDecl) : Prop where
  contract : x.contract? log.address = some c
  event : ∃ topic topics, log.topics = topic :: topics ∧ c.artifact.event? topic = some decl

/-- What the log is decoded to: the event that its contract declares, or the log as it was
written if the contract is unknown or declares none. -/
inductive Decodes (x : Inspector) (log : Log) : DecodedLog → Prop
  | event {c : Contract} {decl : EventDecl} {e : Event} (hdecl : x.Declares log c decl)
      (he : Event.decode c.artifact log = .ok e) : Decodes x log (.event e)
  | raw (hnone : ∀ c decl, ¬ x.Declares log c decl) : Decodes x log (.raw log)

variable {x : Inspector} {log : Log}

end EvmInspect.Inspector
