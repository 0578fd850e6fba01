import EvmInspect.Proofs.Inspector.Backtrace
import EvmInspect.Proofs.Inspector.Logs
import EvmInspect.Proofs.Trace.Pushed
/-!
# Walks that end

None of the walks over a trace remembers where it has been.  Whatever parents the frames were given,
drawing the trees and collecting the logs end, for they start at roots.  The walk over a subtree
ends unless its frame is above itself, and a backtrace unless its frame lies on a loop of failures
each of which is explained by the next one.
-/

namespace EvmInspect.Inspector

open Relation Walk
open Trace (ofPushes)

variable {x : Inspector} {t : Trace} {f root : Frame}

/-! ## Logs -/

theorem mem_children_of_passing {a b : Frame} (h : b ∈ passing t a) : b ∈ t.children a.id := by
  simp only [passing, List.mem_reverse, List.mem_filter] at h
  exact h.1

theorem ends_passing (ht : t.Numbered) (h : t.root? = some root) :
    Ends (passing t) [root] (succeededWithin t (t.frames.length + 1) root) := by
  have hroot : root ∈ t.frames := List.mem_of_find?_eq_some h
  have hparent : root.parent = none := by simpa using List.find?_some h
  have hnext : ∀ a ∈ t.frames, ∀ b ∈ passing t a, b ∈ t.children a.id :=
    fun _ _ _ hb => mem_children_of_passing hb
  rw [succeededWithin_eq]
  exact (ht.visits hnext hroot fun hloop =>
    Trace.not_below_self_of_root hparent (Trace.below_of_next hnext hroot hloop)).ends

/-! ## Backtraces -/

def detail? (x : Inspector) (f : Frame) : Run FailureDetail := f.error.bind (x.detailOf f)

def following (x : Inspector) (t : Trace) (f : Frame) : List Frame :=
  ((x.detail? f).bind (x.next? t f)).toList

theorem mem_following {a b : Frame} (h : b ∈ x.following t a) :
    b ∈ t.children a.id ∧ b.failed = true := by
  simp only [following, Option.mem_toList, Option.bind_eq_some_iff, next?,
    Option.ite_none_right_eq_some, Option.filter_eq_some_iff] at h
  obtain ⟨-, -, -, hlast, hfailed⟩ := h
  rw [Trace.lastChild?_eq_getLast?] at hlast
  exact ⟨List.mem_of_getLast? hlast, hfailed⟩

theorem failuresWithin_eq (hfailed : f.failed = true) (height : Nat) :
    x.failuresWithin t height f [] = (within (x.following t) height f).mapM x.detail? := by
  induction height generalizing f with
  | zero => rfl
  | succ height ih =>
    obtain ⟨error, herror⟩ := Option.isSome_iff_exists.1 hfailed
    have hdetail : x.detail? f = x.detailOf f error := by rw [detail?, herror]; rfl
    rw [failuresWithin_succ herror, within, List.mapM_cons, following, hdetail]
    refine Option.bind_congr fun d hd => ?_
    rw [hd, Option.bind_some]
    cases hnext : x.next? t f d with
    | none => rfl
    | some c =>
      have hc : c ∈ x.following t f := by
        rw [following, hdetail, hd, Option.bind_some, hnext]
        simp
      simp only
      rw [failuresWithin_eq_append, ih (mem_following hc).2, Option.toList_some,
        List.flatMap_singleton, List.nil_append]
      cases (within (x.following t) height c).mapM x.detail? <;> rfl

theorem looped_of_following (ht : t.Numbered) (hf : f ∈ t.frames)
    (hloop : TransGen (Next (x.following t)) f f) : t.Looped f :=
  (ht.looped_iff hf).2 (Trace.below_of_next (fun _ _ _ hb => (mem_following hb).1) hf hloop)

theorem ends_following (ht : t.Numbered) (hf : f ∈ t.frames) (hfailed : f.failed = true)
    (hloop : ¬ TransGen (Next (x.following t)) f f) :
    ∃ seen, Ends (x.following t) [f] seen ∧
      x.backtraceAt t f.id =
        .ofRun ((seen.mapM x.detail?).map fun found => ⟨found.reverse⟩) := by
  refine ⟨_, (ht.visits (fun _ _ _ hb => (mem_following hb).1) hf hloop).ends, ?_⟩
  obtain ⟨error, herror⟩ := Option.isSome_iff_exists.1 hfailed
  rw [backtraceAt_of_error (ht.getElem?_id hf) herror, failuresWithin_eq hfailed]

/-! ## All walks -/

/-- Whatever frames are added with whatever parents: following parents leads back to a frame only if
a frame on the way was given itself or a later one as its parent.  Drawing the trees and collecting
the logs end.  The walk over a subtree ends if and only if its frame is on no such loop, and the
walk of a backtrace if and only if its frame is on no loop of failures that follow one another,
which is such a loop. -/
theorem walks_of_pushes (x : Inspector) (pushes : List Trace.Push) :
    let t := ofPushes pushes
    (∀ f ∈ t.frames, t.Looped f → ∃ g ∈ t.frames, ReflTransGen t.CalledBy f g ∧
      ∃ parent given, pushes[g.id]? = some (.child parent given) ∧ g.id ≤ parent ∧
        parent < pushes.length) ∧
    (∃ drawn, Ends t.drawnBelow t.drawnRoots drawn ∧
      (t.roots ≠ [] → t.treeText = String.join (drawn.flatMap Trace.Drawn.lines))) ∧
    (∀ root, t.root? = some root → ∃ seen, Ends (passing t) [root] seen ∧
      (x.config.childLogs = true → x.loggingFrames t root = seen)) ∧
    (∀ f ∈ t.frames, (¬ t.Looped f → Ends t.called [f] (t.subtree f.id)) ∧
      (t.Looped f → ∀ seen, ¬ Ends t.called [f] seen)) ∧
    ∀ f ∈ t.frames, f.failed = true →
      (¬ TransGen (Next (x.following t)) f f → ∃ seen, Ends (x.following t) [f] seen ∧
        x.backtraceAt t f.id =
        .ofRun ((seen.mapM x.detail?).map fun found => ⟨found.reverse⟩)) ∧
      (TransGen (Next (x.following t)) f f → t.Looped f ∧
        ∀ seen, ¬ Ends (x.following t) [f] seen) := by
  intro t
  have ht : t.Numbered := Trace.numbered_ofPushes pushes
  obtain ⟨hlen, hplaced⟩ := Trace.placed_ofPushes pushes
  refine ⟨fun f hf hloop => ?_, ht.ends_drawn, fun root hroot => ?_, fun f hf => ?_,
    fun f hf hfailed => ⟨ends_following ht hf hfailed, fun hloop => ?_⟩⟩
  · obtain ⟨g, hg, hway, parent, hparent, hle, hlt⟩ := ht.exists_late_parent hf hloop
    refine ⟨g, hg, hway, parent, ?_⟩
    obtain ⟨-, hgiven⟩ := hplaced g.id g (ht.getElem?_id hg)
    obtain ⟨push, hpush, hgiven⟩ := Option.map_eq_some_iff.1 hgiven
    rw [hparent] at hgiven
    cases push with
    | root given => simp [Trace.Push.parent] at hgiven
    | child parent' given =>
      obtain rfl : parent' = parent := by simpa [Trace.Push.parent] using hgiven
      exact ⟨given, hpush, hle, hlen ▸ hlt⟩
  · exact ⟨_, ends_passing ht hroot, fun hchild => by rw [loggingFrames, if_pos hchild]⟩
  · exact ⟨ht.ends_subtree hf, ht.not_ends_subtree hf⟩
  · exact ⟨looped_of_following ht hf hloop, fun _ => not_ends_of_loop hloop⟩

/-- Two frames of which each is the other's parent, and a root with a child. -/
def tangled : List Trace.Push := [.child 1 {}, .child 0 {}, .root {}, .child 2 {}]

/-- The loop does not keep the trees from being drawn, nor the walk from the root from ending; the
one from a frame of the loop goes on for ever. -/
theorem walks_tangled :
    (∃ drawn, Ends (ofPushes tangled).drawnBelow (ofPushes tangled).drawnRoots drawn) ∧
      Ends (ofPushes tangled).called [{ id := 2 }]
        [{ id := 2 }, { id := 3, parent := some 2, depth := 1 }] ∧
      ∀ seen, ¬ Ends (ofPushes tangled).called [{ id := 0, parent := some 1 }] seen := by
  obtain ⟨-, ⟨drawn, hdrawn, -⟩, -, hsubtree, -⟩ := walks_of_pushes {} tangled
  have hroot : ¬ (ofPushes tangled).Looped { id := 2 } := by
    intro hloop
    obtain ⟨b, hb, -⟩ := TransGen.head'_iff.1 hloop
    exact Option.some_ne_none b (hb.symm.trans rfl)
  have hloop : (ofPushes tangled).Looped { id := 0, parent := some 1 } := .tail (.single rfl) rfl
  exact ⟨⟨drawn, hdrawn⟩, (hsubtree _ (by decide)).1 hroot, (hsubtree _ (by decide)).2 hloop⟩

end EvmInspect.Inspector
