import EvmInspect.Proofs.Trace.Pushed
/-!
# Subtrees in pre-order

In a trace that is built frame by frame, a frame's number is its place and its depth the number of
the frames above it.  The walk over a subtree keeps on its stack the numbers of the frames that it
has still to visit, and puts the children of a frame there in reverse.  So it visits a frame, then
the subtrees of its children one after the other, however the children of different frames were
mixed when they were added.
-/

namespace EvmInspect.Trace

open Relation Walk

variable {t : Trace} {a b f g : Frame}

/-! ## Depths -/

/-- A frame stands at depth zero if it has no parent, and one below its parent if it has one. -/
def Leveled (t : Trace) : Prop :=
  ∀ f ∈ t.frames, f.parent = none ∧ f.depth = 0 ∨
    ∃ p, t.Calls p f ∧ f.depth = p.depth + 1

theorem Calls.push (h : t.Calls a b) (f : Frame) : (t.push f).Calls a b := by
  refine ⟨List.mem_append_left _ h.1, mem_children.2 ⟨?_, h.parent⟩⟩
  exact List.mem_append_left _ h.mem

theorem Leveled.push (ht : t.Leveled) (hf : f.parent = none ∧ f.depth = 0 ∨
    ∃ p, (t.push f).Calls p f ∧ f.depth = p.depth + 1) : (t.push f).Leveled := by
  intro g hg
  obtain hg | hg := List.mem_append.1 hg
  · obtain hroot | ⟨p, hcall, hdepth⟩ := ht g hg
    · exact .inl hroot
    · exact .inr ⟨p, hcall.push f, hdepth⟩
  · rw [List.mem_singleton.1 hg]
    exact hf

theorem Built.leveled (ht : t.Built) : t.Leveled := by
  induction ht with
  | empty => simp [Leveled]
  | pushRoot _ f ih => exact ih.push (.inl ⟨rfl, rfl⟩)
  | @pushChild t ht parent hparent f ih =>
    apply ih.push
    obtain ⟨p, hp⟩ : ∃ p, t.frames[parent]? = some p := ⟨_, List.getElem?_eq_getElem hparent⟩
    have hid : p.id = parent := ht.ordered.numbered parent p hp
    refine .inr ⟨p, ⟨List.mem_append_left _ (List.mem_of_getElem? hp), mem_children.2 ⟨?_, ?_⟩⟩, ?_⟩
    · exact List.mem_append_right _ (List.mem_singleton_self _)
    · rw [hid]
    · simp only [childDepth, hp]

theorem Ordered.below_iff (ht : t.Ordered) (hg : t.Calls g f) :
    t.Below a f ↔ t.Below a g ∨ a = g := by
  constructor
  · intro h
    exact (ht.below_caller h hg).symm
  · rintro (h | rfl)
    · exact h.tail hg
    · exact .single hg

/-- The frames above a frame, the first of them a root, stand at the depths above its own. -/
theorem Built.exists_above (ht : t.Built) (hf : f ∈ t.frames) :
    ∃ above : List Frame, above.map Frame.depth = List.range f.depth ∧
      ∀ a, a ∈ above ↔ t.Below a f := by
  induction hid : f.id using Nat.strongRecOn generalizing f with
  | ind i ih =>
    obtain hroot | ⟨p, hcall, hdepth⟩ := ht.leveled f hf
    · refine ⟨[], by rw [hroot.2]; rfl, fun a => ⟨fun h => by simp at h, fun h => ?_⟩⟩
      obtain ⟨p, -, hcall⟩ := TransGen.tail'_iff.1 h
      simp [hcall.parent] at hroot
    · have hlt := ht.ordered.id_lt hcall
      obtain ⟨above, hdepths, habove⟩ := ih p.id (hid ▸ hlt) hcall.1 rfl
      refine ⟨above ++ [p], ?_, fun a => ?_⟩
      · rw [List.map_append, hdepths, hdepth, List.range_succ]
        rfl
      · rw [List.mem_append, List.mem_singleton, habove, ht.ordered.below_iff hcall]

/-! ## The walk -/

/-- One round of the walk over a subtree.  The number at the end of the stack is taken off; its
frame is visited, and the numbers of its children are put on the stack, the first one last. -/
def round (t : Trace) : List Nat × List Frame → List Nat × List Frame
  | (stack, seen) =>
    match stack.getLast? with
    | none => (stack, seen)
    | some id =>
      match t.frames[id]? with
      | none => (stack.dropLast, seen)
      | some f => (stack.dropLast ++ (t.children id).reverse.map Frame.id, seen ++ [f])

/-- The numbers of the frames that are still to visit, the next one last. -/
def stackOf (todo : List Frame) : List Nat := (todo.map Frame.id).reverse

theorem Numbered.round_stackOf (ht : t.Numbered) {todo seen : List Frame}
    (htodo : ∀ f ∈ todo, f ∈ t.frames) :
    t.round (stackOf todo, seen) =
      (stackOf (Walk.round t.called (todo, seen)).1, (Walk.round t.called (todo, seen)).2) := by
  cases todo with
  | nil => rfl
  | cons f todo =>
    rw [List.forall_mem_cons] at htodo
    simp [round, stackOf, Walk.round, ht.getElem?_id htodo.1, called, List.map_reverse]

theorem Numbered.iterate_round (ht : t.Numbered) {todo seen seen' : List Frame} (rounds : Nat)
    (htodo : ∀ f ∈ todo, f ∈ t.frames)
    (h : (Walk.round t.called)^[rounds] (todo, seen) = ([], seen')) :
    t.round^[rounds] (stackOf todo, seen) = ([], seen') := by
  induction rounds generalizing todo seen with
  | zero =>
    obtain ⟨rfl, rfl⟩ := Prod.mk.inj h
    rfl
  | succ rounds ih =>
    rw [Function.iterate_succ_apply] at h ⊢
    rw [ht.round_stackOf htodo]
    refine ih (fun f hf => ?_) h
    cases todo with
    | nil => simp [Walk.round] at hf
    | cons g todo =>
      rw [List.forall_mem_cons] at htodo
      obtain hf | hf := List.mem_append.1 hf
      · exact (mem_children.1 hf).1
      · exact htodo.2 f hf

/-! ## Subtrees -/

theorem Ordered.called_step (ht : t.Ordered) (a : Frame) (ha : a ∈ t.frames) :
    ∀ b ∈ t.called a, b ∈ t.frames ∧ t.frames.length - b.id < t.frames.length - a.id :=
  fun _ hb => ht.step_of_calls ⟨ha, hb⟩

theorem rank_lt (f : Frame) : t.frames.length - f.id < t.frames.length + 1 := by omega

theorem Ordered.subtree_eq_within (ht : t.Ordered) (hf : f ∈ t.frames) :
    t.subtree f.id = within t.called (t.frames.length + 1) f :=
  ht.numbered.subtreeWithin_eq hf _

theorem Ordered.subtree_eq (ht : t.Ordered) (hf : f ∈ t.frames) :
    t.subtree f.id = f :: (t.children f.id).flatMap fun c => t.subtree c.id := by
  rw [ht.subtree_eq_within hf, within]
  refine congrArg (f :: ·) (List.flatMap_congr fun c hc => ?_)
  have hc' := ht.called_step f hf c hc
  rw [ht.subtree_eq_within hc'.1]
  exact within_eq_within ht.called_step hc'.1 (by omega) (rank_lt c)

theorem Ordered.mem_subtree_iff (ht : t.Ordered) (hf : f ∈ t.frames) :
    g ∈ t.subtree f.id ↔ g = f ∨ t.Below f g := by
  rw [ht.subtree_eq_within hf, mem_within_iff ht.called_step hf (rank_lt f),
    reflTransGen_iff_eq_or_transGen]
  rfl

theorem Ordered.nodup_subtree (ht : t.Ordered) (hf : f ∈ t.frames) : (t.subtree f.id).Nodup := by
  rw [ht.subtree_eq_within hf]
  refine nodup_within ht.called_step ?_ ?_ hf (rank_lt f)
  · exact fun _ _ _ ha hb => ht.numbered.caller_unique ha hb
  · exact fun a _ => ht.numbered.nodup.filter _

/-- What is below a frame of a subtree stands behind it. -/
theorem Ordered.pair_sublist_subtree (ht : t.Ordered) (hf : f ∈ t.frames)
    (ha : a ∈ t.subtree f.id) (hab : t.Below a b) : [a, b].Sublist (t.subtree f.id) := by
  have hmem : a ∈ t.frames := by
    obtain ⟨c, hcall, -⟩ := TransGen.head'_iff.1 hab
    exact hcall.1
  have hinfix : t.subtree a.id <:+: t.subtree f.id := by
    rw [ht.subtree_eq_within hf] at ha ⊢
    rw [ht.subtree_eq_within hmem]
    exact within_infix ht.called_step ((mem_within_iff ht.called_step hf (rank_lt f)).1 ha) hf
      (rank_lt f)
  have hb : b ∈ t.subtree a.id := (ht.mem_subtree_iff hmem).2 (.inr hab)
  have hne : b ≠ a := by
    rintro rfl
    exact Nat.lt_irrefl _ (ht.id_lt_of_below hab)
  refine List.Sublist.trans ?_ hinfix.sublist
  rw [ht.subtree_eq hmem] at hb ⊢
  exact (List.singleton_sublist.2 ((List.mem_cons.1 hb).resolve_left hne)).cons_cons a

/-- In a trace that is built frame by frame, a frame's number is its place and its depth the number
of frames above it.  The walk over its subtree ends, and what it has visited is the frame and then
the subtrees of its children in the order in which they were added: the frame and every frame below
it, each once, and each before those below it. -/
theorem subtree_of_built (ht : t.Built) {i : Nat} (hf : t.frames[i]? = some f) :
    f.id = i ∧
      (∃ above : List Frame, above.Nodup ∧ (∀ a, a ∈ above ↔ t.Below a f) ∧
        f.depth = above.length) ∧
      (∃ rounds, t.round^[rounds] ([i], []) = ([], t.subtree i)) ∧
      t.subtree i = f :: (t.children i).flatMap (fun c => t.subtree c.id) ∧
      (t.subtree i).Nodup ∧ (∀ g, g ∈ t.subtree i ↔ g = f ∨ t.Below f g) ∧
      ∀ a b, a ∈ t.subtree i → t.Below a b → [a, b].Sublist (t.subtree i) := by
  have hordered := ht.ordered
  obtain rfl : f.id = i := hordered.numbered i f hf
  have hmem : f ∈ t.frames := List.mem_of_getElem? hf
  refine ⟨rfl, ?_, ?_, hordered.subtree_eq hmem, hordered.nodup_subtree hmem,
    fun g => hordered.mem_subtree_iff hmem, fun a b => hordered.pair_sublist_subtree hmem⟩
  · obtain ⟨above, hdepths, habove⟩ := ht.exists_above hmem
    refine ⟨above, ?_, habove, ?_⟩
    · exact List.Nodup.of_map Frame.depth (hdepths ▸ List.nodup_range)
    · simpa using (congrArg List.length hdepths).symm
  · have hvisits := visits_of_rank hordered.called_step hmem (rank_lt f)
    obtain ⟨rounds, hrounds⟩ := hvisits.ends
    rw [← hordered.subtree_eq_within hmem] at hrounds
    exact ⟨rounds, hordered.numbered.iterate_round rounds (by simpa using hmem) hrounds⟩

/-- A root with two children, of which the first one gets a child after the second one was added. -/
def interleaved : Trace :=
  (((Trace.pushRoot {} {}).pushChild 0 {}).pushChild 0 {}).pushChild 1 {}

theorem built_interleaved : interleaved.Built :=
  .pushChild (.pushChild (.pushChild (.pushRoot .empty _) (by decide) _) (by decide) _)
    (by decide) _

/-- The walk visits frame 3 before frame 2. -/
theorem subtree_interleaved :
    interleaved.Built ∧ interleaved.frames[0]? = some ({} : Frame) ∧
      (interleaved.subtree 0).map Frame.id = [0, 1, 3, 2] ∧
      ∃ rounds, interleaved.round^[rounds] ([0], []) = ([], interleaved.subtree 0) := by
  have hroot : interleaved.frames[0]? = some ({} : Frame) := rfl
  obtain ⟨-, -, hrounds, -⟩ := subtree_of_built built_interleaved hroot
  exact ⟨built_interleaved, hroot, by decide, hrounds⟩

end EvmInspect.Trace
