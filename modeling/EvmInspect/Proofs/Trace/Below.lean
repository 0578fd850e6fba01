import EvmInspect.Proofs.Trace.Built
import Mathlib.Data.List.Nodup
import Mathlib.Logic.Relation
/-!
# Frames below a frame

The frames that a frame called, directly or through others.  In a trace that is built frame by frame
a frame has one caller only and stands behind it, so the frames above a frame form a chain.
-/

namespace EvmInspect.Trace

open Relation

variable {t : Trace} {a b c f g root : Frame}

def Calls (t : Trace) (a b : Frame) : Prop := a ∈ t.frames ∧ b ∈ t.children a.id

/-- The first frame called the second one, directly or through others. -/
def Below (t : Trace) : Frame → Frame → Prop := TransGen t.Calls

theorem mem_children {id : Nat} : f ∈ t.children id ↔ f ∈ t.frames ∧ f.parent = some id := by
  simp [children]

theorem Calls.mem (h : t.Calls a b) : b ∈ t.frames := (mem_children.1 h.2).1

theorem Calls.parent (h : t.Calls a b) : b.parent = some a.id := (mem_children.1 h.2).2

theorem Below.mem (h : t.Below a b) : b ∈ t.frames := by
  cases h with
  | single h => exact h.mem
  | tail _ h => exact h.mem

theorem Numbered.eq_of_id (ht : t.Numbered) (ha : a ∈ t.frames) (hb : b ∈ t.frames)
    (h : a.id = b.id) : a = b := by
  have hplace := ht.getElem?_id ha
  rw [h, ht.getElem?_id hb, Option.some.injEq] at hplace
  exact hplace.symm

theorem Numbered.id_lt_length (ht : t.Numbered) (hf : f ∈ t.frames) :
    f.id < t.frames.length :=
  (List.getElem?_eq_some_iff.1 (ht.getElem?_id hf)).1

theorem Numbered.nodup (ht : t.Numbered) : t.frames.Nodup := by
  refine List.nodup_iff_getElem?_ne_getElem?.2 fun i j hij hj h => ?_
  have hi := List.getElem?_eq_getElem (Nat.lt_trans hij hj)
  have hj := List.getElem?_eq_getElem hj
  rw [hi, hj, Option.some.injEq] at h
  have hidi := ht i _ hi
  have hidj := ht j _ hj
  rw [h] at hidi
  omega

theorem Ordered.id_lt (ht : t.Ordered) (h : t.Calls a b) : a.id < b.id :=
  (ht b.id b (ht.numbered.getElem?_id h.mem)).2 a.id h.parent

theorem Ordered.id_lt_of_below (ht : t.Ordered) (h : t.Below a b) : a.id < b.id := by
  induction h with
  | single h => exact ht.id_lt h
  | tail _ h ih => exact Nat.lt_trans ih (ht.id_lt h)

/-- Fewer frames stand behind a frame than behind its caller. -/
theorem Ordered.step_of_calls (ht : t.Ordered) (h : t.Calls a b) :
    b ∈ t.frames ∧ t.frames.length - b.id < t.frames.length - a.id := by
  have hlt := ht.id_lt h
  have hlen := ht.numbered.id_lt_length h.mem
  exact ⟨h.mem, by omega⟩

theorem Numbered.caller_unique (ht : t.Numbered) (ha : t.Calls a f) (hb : t.Calls b f) :
    a = b := by
  have hid : some a.id = some b.id := by rw [← ha.parent, hb.parent]
  rw [Option.some.injEq] at hid
  exact ht.eq_of_id ha.1 hb.1 hid

theorem Ordered.below_caller (ht : t.Ordered) (h : t.Below a f) (hg : t.Calls g f) :
    a = g ∨ t.Below a g := by
  cases h with
  | single h => exact .inl (ht.numbered.caller_unique h hg)
  | tail h hlast =>
    rw [ht.numbered.caller_unique hlast hg] at h
    exact .inr h

/-! ## Ways on which no call failed -/

end EvmInspect.Trace
