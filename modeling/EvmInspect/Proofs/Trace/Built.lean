import EvmInspect.Trace.Basic
import Mathlib.Data.List.Basic
/-!
# Traces that are built frame by frame

In a trace to which frames are added as roots, or as children of frames that are there, a frame's
number is its place, and a child stands behind its parent.  So a walk from parents to children
comes to an end.
-/

namespace EvmInspect.Trace

/-- Every frame was added as a root, or as a child of a frame that was there already. -/
inductive Built : Trace → Prop
  | empty : Built {}
  | pushRoot {t : Trace} (ht : Built t) (f : Frame) : Built (t.pushRoot f)
  | pushChild {t : Trace} (ht : Built t) {parent : Nat} (hparent : parent < t.frames.length)
      (f : Frame) : Built (t.pushChild parent f)

def Numbered (t : Trace) : Prop := ∀ (i : Nat) (f : Frame), t.frames[i]? = some f → f.id = i

def Ordered (t : Trace) : Prop :=
  ∀ (i : Nat) (f : Frame), t.frames[i]? = some f →
    f.id = i ∧ ∀ parent, f.parent = some parent → parent < i

theorem Ordered.push {t : Trace} (ht : t.Ordered) {f : Frame} (hid : f.id = t.frames.length)
    (hparent : ∀ parent, f.parent = some parent → parent < t.frames.length) :
    (t.push f).Ordered := by
  intro i g hg
  unfold Trace.push at hg
  by_cases hi : i < t.frames.length
  · rw [List.getElem?_append_left hi] at hg
    exact ht i g hg
  · rw [List.getElem?_append_right (by omega), List.getElem?_singleton] at hg
    split at hg
    · have heq : i = t.frames.length := by omega
      rw [Option.some.injEq] at hg
      rw [← hg, heq]
      exact ⟨hid, hparent⟩
    · simp at hg

theorem Built.ordered {t : Trace} (ht : t.Built) : t.Ordered := by
  induction ht with
  | empty =>
    intro i f hf
    simp at hf
  | pushRoot _ f ih =>
    apply ih.push
    · rfl
    · intro parent h
      simp at h
  | pushChild _ hparent f ih =>
    apply ih.push
    · rfl
    · intro parent h
      rw [Option.some.injEq] at h
      rw [← h]
      exact hparent

theorem Ordered.numbered {t : Trace} (ht : t.Ordered) : t.Numbered := fun i f hf => (ht i f hf).1

theorem Numbered.getElem?_id {t : Trace} (ht : t.Numbered) {f : Frame} (hf : f ∈ t.frames) :
    t.frames[f.id]? = some f := by
  obtain ⟨i, hi⟩ := List.mem_iff_getElem?.1 hf
  rw [ht i f hi]
  exact hi

theorem lastChild?_eq_getLast? (t : Trace) (id : Nat) :
    t.lastChild? id = (t.children id).getLast? := by
  rw [lastChild?, children, List.getLast?_eq_head?_reverse, ← List.filter_reverse,
    List.head?_filter]

end EvmInspect.Trace
