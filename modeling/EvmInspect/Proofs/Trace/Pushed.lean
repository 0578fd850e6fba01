import EvmInspect.Proofs.Trace.Below
import EvmInspect.Proofs.Trace.Walk
import EvmInspect.Trace.Tree
import Mathlib.Data.List.Induction
/-!
# Traces with any parents

Nothing keeps a frame from being added as the child of a frame that is not there yet, or of itself.
Its number is its place all the same, so that it has one parent at most.  Following parents leads
back to a frame only if a frame on the way was given itself or a later one as its parent.  What is
below such a frame is without end, but the frames below a root are not: no way leads from a loop to
a root.
-/

namespace EvmInspect.Trace

open Relation Walk

/-! ## Adding frames -/

/-- A call that adds a frame to a trace. -/
inductive Push where
  | root (f : Frame)
  /-- The frame is added as a child of the frame of a number, whether or not there is one. -/
  | child (parent : Nat) (f : Frame)

def Push.parent : Push → Option Nat
  | .root _ => none
  | .child parent _ => some parent

def add (t : Trace) : Push → Trace
  | .root f => t.pushRoot f
  | .child parent f => t.pushChild parent f

def ofPushes (pushes : List Push) : Trace := pushes.foldl add {}

theorem frames_add (t : Trace) (p : Push) :
    ∃ f, (t.add p).frames = t.frames ++ [f] ∧ f.id = t.frames.length ∧ f.parent = p.parent := by
  cases p <;> exact ⟨_, rfl, rfl, rfl⟩

/-- Each call adds a frame in its place, with the parent that it was given. -/
theorem placed_ofPushes (pushes : List Push) :
    (ofPushes pushes).frames.length = pushes.length ∧
      ∀ (i : Nat) (f : Frame), (ofPushes pushes).frames[i]? = some f →
        f.id = i ∧ pushes[i]?.map Push.parent = some f.parent := by
  induction pushes using List.reverseRecOn with
  | nil => simp [ofPushes]
  | append_singleton pushes p ih =>
    obtain ⟨hlen, hplaced⟩ := ih
    obtain ⟨last, hframes, hid, hparent⟩ := frames_add (ofPushes pushes) p
    have hadd : ofPushes (pushes ++ [p]) = (ofPushes pushes).add p := by
      rw [ofPushes, List.foldl_append]
      rfl
    rw [hadd, hframes]
    refine ⟨by simp [hlen], fun i f hf => ?_⟩
    by_cases hi : i < pushes.length
    · rw [List.getElem?_append_left (by omega)] at hf ⊢
      exact hplaced i f hf
    · rw [List.getElem?_append_right (by omega), List.getElem?_singleton] at hf
      obtain ⟨hi, rfl⟩ := by simpa using hf
      obtain rfl : i = pushes.length := by omega
      simp [hid, hlen, hparent]

theorem numbered_ofPushes (pushes : List Push) : (ofPushes pushes).Numbered :=
  fun i f hf => ((placed_ofPushes pushes).2 i f hf).1

/-! ## Parents -/

variable {t : Trace} {a b f : Frame}

def CalledBy (t : Trace) (a b : Frame) : Prop := t.parent? a.id = some b

/-- Following parents from the frame leads back to it. -/
def Looped (t : Trace) (f : Frame) : Prop := TransGen t.CalledBy f f

theorem Numbered.calledBy_iff (ht : t.Numbered) (ha : a ∈ t.frames) :
    t.CalledBy a b ↔ t.Calls b a := by
  simp only [CalledBy, parent?, Calls, mem_children, ht.getElem?_id ha, ha, true_and,
    Option.bind_eq_bind, Option.bind_some, Option.bind_eq_some_iff]
  constructor
  · rintro ⟨parent, hparent, hb⟩
    rw [ht parent b hb]
    exact ⟨List.mem_of_getElem? hb, hparent⟩
  · rintro ⟨hb, hparent⟩
    exact ⟨b.id, hparent, ht.getElem?_id hb⟩

theorem Numbered.transGen_calledBy_iff (ht : t.Numbered) (ha : a ∈ t.frames) :
    TransGen t.CalledBy a b ↔ t.Below b a := by
  constructor
  · intro h
    induction h with
    | single h => exact .single ((ht.calledBy_iff ha).1 h)
    | @tail b c _ hlast ih =>
      have hmem : b ∈ t.frames := by
        obtain ⟨d, hcall, -⟩ := TransGen.head'_iff.1 ih
        exact hcall.1
      exact .head ((ht.calledBy_iff hmem).1 hlast) ih
  · intro h
    induction h with
    | single h => exact .single ((ht.calledBy_iff h.mem).2 h)
    | tail _ hlast ih => exact .head ((ht.calledBy_iff hlast.mem).2 hlast) (ih hlast.1)

theorem Numbered.looped_iff (ht : t.Numbered) (hf : f ∈ t.frames) :
    t.Looped f ↔ t.Below f f :=
  ht.transGen_calledBy_iff hf

theorem not_below_self_of_root (hroot : f.parent = none) : ¬ t.Below f f := by
  intro h
  obtain ⟨g, -, hcall⟩ := TransGen.tail'_iff.1 h
  simp [hcall.parent] at hroot

/-- On a loop a frame was given itself or a later one as its parent. -/
theorem Numbered.exists_late_parent (ht : t.Numbered) (hf : f ∈ t.frames) (hloop : t.Looped f) :
    ∃ g ∈ t.frames, ReflTransGen t.CalledBy f g ∧
      ∃ parent, g.parent = some parent ∧ g.id ≤ parent ∧ parent < t.frames.length := by
  by_contra hnone
  simp only [not_exists, not_and] at hnone
  -- otherwise the numbers get smaller on the way
  have hdown : ∀ g, TransGen t.CalledBy f g → g ∈ t.frames ∧ g.id < f.id := by
    have hstep : ∀ a b, a ∈ t.frames → ReflTransGen t.CalledBy f a → t.CalledBy a b →
        b ∈ t.frames ∧ b.id < a.id := by
      intro a b ha hway hab
      have hcall := (ht.calledBy_iff ha).1 hab
      have hlen := ht.id_lt_length hcall.1
      refine ⟨hcall.1, ?_⟩
      by_contra hle
      exact hnone a ha hway b.id hcall.parent (Nat.le_of_not_lt hle) hlen
    intro g hway
    induction hway with
    | single h => exact hstep f _ hf .refl h
    | tail hway hlast ih =>
      obtain ⟨hmem, hlt⟩ := hstep _ _ ih.1 hway.to_reflTransGen hlast
      exact ⟨hmem, hlt.trans ih.2⟩
  exact Nat.lt_irrefl _ (hdown f hloop).2

/-! ## Walks from frames to their children -/

section Walks

variable {next : Frame → List Frame}

theorem Numbered.visits (ht : t.Numbered)
    (hnext : ∀ a ∈ t.frames, ∀ b ∈ next a, b ∈ t.children a.id) (hf : f ∈ t.frames)
    (hloop : ¬ TransGen (Next next) f f) : Visits next (t.frames.length + 1) f := by
  refine visits_of_not_loop (fun a ha b hb => (mem_children.1 (hnext a ha b hb)).1) ?_ hf hloop
  intro a ha a' ha' b hb hb'
  exact ht.caller_unique ⟨ha, hnext a ha b hb⟩ ⟨ha', hnext a' ha' b hb'⟩

theorem below_of_next (hnext : ∀ a ∈ t.frames, ∀ b ∈ next a, b ∈ t.children a.id)
    (hf : f ∈ t.frames) (h : TransGen (Next next) f b) : t.Below f b := by
  induction h with
  | single h => exact .single ⟨hf, hnext f hf _ h⟩
  | tail _ hlast ih => exact ih.tail ⟨ih.mem, hnext _ ih.mem _ hlast⟩

end Walks

/-! ## Subtrees -/

def called (t : Trace) (f : Frame) : List Frame := t.children f.id

theorem transGen_called_iff (hf : f ∈ t.frames) : TransGen (Next t.called) f b ↔ t.Below f b :=
  ⟨below_of_next (fun _ _ _ h => h) hf, TransGen.mono (fun _ _ h => h.2) _ _⟩

theorem Numbered.subtreeWithin_eq (ht : t.Numbered) (hf : f ∈ t.frames) (height : Nat) :
    t.subtreeWithin height f.id = within t.called height f := by
  induction height generalizing f with
  | zero => rfl
  | succ height ih =>
    rw [subtreeWithin, ht.getElem?_id hf, within]
    refine congrArg (f :: ·) (List.flatMap_congr fun c hc => ?_)
    exact ih (mem_children.1 hc).1

theorem Numbered.ends_subtree (ht : t.Numbered) (hf : f ∈ t.frames) (hloop : ¬ t.Looped f) :
    Ends t.called [f] (t.subtree f.id) := by
  rw [ht.looped_iff hf, ← transGen_called_iff hf] at hloop
  have hvisits : Visits t.called (t.frames.length + 1) f := ht.visits (fun _ _ _ h => h) hf hloop
  have hends := hvisits.ends
  rwa [← ht.subtreeWithin_eq hf] at hends

theorem Numbered.not_ends_subtree (ht : t.Numbered) (hf : f ∈ t.frames) (hloop : t.Looped f)
    (seen : List Frame) : ¬ Ends t.called [f] seen := by
  rw [ht.looped_iff hf, ← transGen_called_iff hf] at hloop
  exact not_ends_of_loop hloop

/-- A frame that is given itself as its parent is its own parent, and what is below it has no
end. -/
theorem parent?_own_child :
    ∃ f ∈ (ofPushes [.child 0 {}]).frames, (ofPushes [.child 0 {}]).parent? f.id = some f ∧
      ∀ seen, ¬ Ends (ofPushes [.child 0 {}]).called [f] seen := by
  have hf : { parent := some 0 } ∈ (ofPushes [.child 0 {}]).frames := List.mem_singleton_self _
  have hloop : (ofPushes [.child 0 {}]).Looped { parent := some 0 } := .single rfl
  exact ⟨_, hf, rfl, (numbered_ofPushes _).not_ends_subtree hf hloop⟩

/-! ## Trees as text -/

/-- A frame as it is drawn in a tree: the bars before it and whether it is the last of its
siblings. -/
structure Drawn where
  levels : List Bool
  indent : Nat
  isLast : Bool
  frame : Frame

def Drawn.lines (d : Drawn) : List String :=
  headerLine d.levels d.indent d.isLast d.frame :: detailLines d.indent d.frame

def drawnBelow (t : Trace) (d : Drawn) : List Drawn :=
  (markLast (t.children d.frame.id)).map fun c =>
    ⟨if d.indent = 0 then d.levels else d.levels ++ [d.isLast], d.indent + 1, c.2, c.1⟩

def drawnRoots (t : Trace) : List Drawn := (markLast t.roots).map fun r => ⟨[], 0, r.2, r.1⟩

theorem fst_mem_of_mem_markLast {frames : List Frame} {m : Frame × Bool}
    (h : m ∈ markLast frames) : m.1 ∈ frames := by
  induction frames with
  | nil => simp [markLast] at h
  | cons f rest ih =>
    rw [markLast, List.mem_cons] at h
    obtain rfl | h := h
    · exact List.mem_cons_self
    · exact List.mem_cons_of_mem _ (ih h)

theorem linesWithin_eq (t : Trace) (height : Nat) (d : Drawn) :
    t.linesWithin height d.levels d.indent d.isLast d.frame =
      (within t.drawnBelow height d).flatMap Drawn.lines := by
  induction height generalizing d with
  | zero => rfl
  | succ height ih =>
    rw [linesWithin, within, List.flatMap_cons, Drawn.lines, drawnBelow, List.flatMap_map,
      List.flatMap_assoc]
    refine congrArg (_ ++ ·) (List.flatMap_congr fun c _ => ?_)
    exact ih ⟨_, _, c.2, c.1⟩

def drawn (t : Trace) : List Drawn :=
  t.drawnRoots.flatMap (within t.drawnBelow (t.frames.length + 1))

theorem treeText_eq (hroots : t.roots ≠ []) :
    t.treeText = String.join (t.drawn.flatMap Drawn.lines) := by
  have htext : t.treeText = String.join ((markLast t.roots).flatMap fun r =>
      t.linesWithin (t.frames.length + 1) [] 0 r.2 r.1) := by
    unfold treeText
    cases h : t.roots with
    | nil => exact absurd h hroots
    | cons r rest => rfl
  rw [htext, drawn, drawnRoots, List.flatMap_map, List.flatMap_assoc]
  refine congrArg String.join (List.flatMap_congr fun r _ => ?_)
  exact linesWithin_eq t _ ⟨[], 0, r.2, r.1⟩

/-- Drawing the trees of all roots ends, and the text is what was drawn. -/
theorem Numbered.ends_drawn (ht : t.Numbered) :
    ∃ drawn, Ends t.drawnBelow t.drawnRoots drawn ∧
      (t.roots ≠ [] → t.treeText = String.join (drawn.flatMap Drawn.lines)) := by
  have hvisits : ∀ d ∈ t.drawnRoots, Visits t.drawnBelow (t.frames.length + 1) d := by
    have hstep : ∀ d : Drawn, d.frame ∈ t.frames ∧ ¬ TransGen (Next t.called) d.frame d.frame →
        ∀ e ∈ t.drawnBelow d, (e.frame ∈ t.frames ∧ ¬ TransGen (Next t.called) e.frame e.frame) ∧
          reach t.called t.frames e.frame < reach t.called t.frames d.frame := by
      rintro d ⟨hd, hloop⟩ e he
      obtain ⟨c, hc, rfl⟩ := List.mem_map.1 he
      have hcall : c.1 ∈ t.called d.frame := fst_mem_of_mem_markLast hc
      have hunique : ∀ a ∈ t.frames, ∀ a' ∈ t.frames, ∀ b, b ∈ t.called a → b ∈ t.called a' →
          a = a' := fun a ha a' ha' b hb hb' => ht.caller_unique ⟨ha, hb⟩ ⟨ha', hb'⟩
      exact ⟨⟨(mem_children.1 hcall).1, not_loop_of_next (fun a _ b hb => (mem_children.1 hb).1)
        hunique hd hloop hcall⟩, reach_lt hd hloop hcall⟩
    intro d hd
    obtain ⟨r, hr, rfl⟩ := List.mem_map.1 hd
    have hroot := fst_mem_of_mem_markLast hr
    simp only [roots, List.mem_filter, Option.isNone_iff_eq_none] at hroot
    refine visits_of_rank hstep ⟨hroot.1, ?_⟩ (Nat.lt_succ_of_le (reach_le _))
    rw [transGen_called_iff hroot.1]
    exact not_below_self_of_root hroot.2
  exact ⟨_, ends_of_visits hvisits, treeText_eq⟩

end EvmInspect.Trace
