import EvmInspect.Inspector.Basic
import EvmInspect.Proofs.Basic
import EvmInspect.Proofs.Trace.Built
/-!
# Backtraces

The walk from a failed frame inwards gives the backtrace of the frame it goes on with, and behind it
the frame itself.  In a trace that is built frame by frame it comes to an end before it has met as
many frames as there are, if nothing that is shown of a frame stops the program.
-/

namespace EvmInspect.Inspector

/-- The frame that the walk goes on with. -/
def next? (x : Inspector) (t : Trace) (f : Frame) (d : FailureDetail) : Option Frame :=
  if x.isPassedOn f d then (t.lastChild? f.id).filter Frame.failed else none

theorem failuresWithin_succ {x : Inspector} {t : Trace} {f : Frame} {error : VmError}
    (herror : f.error = some error) (height : Nat) (found : List FailureDetail) :
    x.failuresWithin t (height + 1) f found = (x.detailOf f error).bind fun d =>
      match x.next? t f d with
      | some c => x.failuresWithin t height c (found ++ [d])
      | none => some (found ++ [d]) := by
  rw [failuresWithin, herror]
  refine Option.bind_congr fun d _ => ?_
  rw [next?]
  split
  · cases hlast : t.lastChild? f.id with
    | none => rfl
    | some c => cases hfailed : c.failed <;> simp [hfailed, Option.filter]
  · rfl

theorem failuresWithin_eq_append (x : Inspector) (t : Trace) (height : Nat) (f : Frame)
    (found : List FailureDetail) :
    x.failuresWithin t height f found = (x.failuresWithin t height f []).map (found ++ ·) := by
  induction height generalizing f found with
  | zero => simp [failuresWithin]
  | succ height ih =>
    cases herror : f.error with
    | none => simp [failuresWithin, herror]
    | some error =>
      rw [failuresWithin_succ herror, failuresWithin_succ herror, Option.map_bind]
      refine Option.bind_congr fun d _ => ?_
      simp only [Function.comp_apply]
      cases x.next? t f d with
      | none => rfl
      | some c =>
        simp only
        rw [ih c (found ++ [d]), ih c ([] ++ [d]), Option.map_map]
        refine congrArg (Option.map · _) (funext fun rest => ?_)
        rw [Function.comp_apply, List.nil_append, List.append_assoc]

/-! ## The whole walk -/

theorem backtraceAt_of_error {x : Inspector} {t : Trace} {id : Nat} {f : Frame} {error : VmError}
    (hf : t.frames[id]? = some f) (herror : f.error = some error) :
    x.backtraceAt t id = .ofRun
      ((x.failuresWithin t (t.frames.length + 1) f []).map fun found => ⟨found.reverse⟩) := by
  have hfailed : f.failed = true := by simp [Frame.failed, herror]
  simp only [backtraceAt, hf, hfailed, if_true]

end EvmInspect.Inspector
