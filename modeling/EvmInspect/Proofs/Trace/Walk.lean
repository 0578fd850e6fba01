import Mathlib.Data.Finset.Card
import Mathlib.Logic.Function.Iterate
import Mathlib.Logic.Relation
/-!
# Walks with a stack

A walk that keeps on a stack what it has still to visit, and notes nowhere what it has seen, ends if
and only if what comes next never leads back to where it was.  Among finitely many things of which
each comes next to at most one other, a walk that ends goes no deeper than there are things, so that
it visits the same as one that counts its levels.
-/

namespace EvmInspect.Walk

open Relation

variable {α : Type} {next : α → List α}

/-- One round of a walk: what is on top of the stack is visited, and what comes next to it is put in
its place. -/
def round (next : α → List α) : List α × List α → List α × List α
  | ([], seen) => ([], seen)
  | (a :: todo, seen) => (next a ++ todo, seen ++ [a])

/-- Some rounds take one stack and what was seen to another stack and what was seen then. -/
def Reaches (next : α → List α) (s s' : List α × List α) : Prop :=
  ∃ rounds, (round next)^[rounds] s = s'

/-- The walk from a stack comes to an end after it has visited `seen`, in this order. -/
def Ends (next : α → List α) (todo seen : List α) : Prop := Reaches next (todo, []) ([], seen)

/-- What a walk visits within `height` levels, each thing before what comes next to it. -/
def within (next : α → List α) : (height : Nat) → α → List α
  | 0, _ => []
  | height + 1, a => a :: (next a).flatMap (within next height)

/-- The second thing comes next to the first one. -/
def Next (next : α → List α) (a b : α) : Prop := b ∈ next a

/-! ## Walks that end -/

theorem Reaches.refl (s : List α × List α) : Reaches next s s := ⟨0, rfl⟩

theorem Reaches.trans {s s' s'' : List α × List α} (h : Reaches next s s')
    (h' : Reaches next s' s'') : Reaches next s s'' := by
  obtain ⟨m, rfl⟩ := h
  obtain ⟨n, rfl⟩ := h'
  exact ⟨n + m, Function.iterate_add_apply _ n m s⟩

theorem Reaches.round {s s' : List α × List α} (h : Reaches next (round next s) s') :
    Reaches next s s' :=
  .trans ⟨1, rfl⟩ h

/-- The walk visits all that is within `height` levels of a thing on top of the stack, and then goes
on with what is below it. -/
def Visits (next : α → List α) (height : Nat) (a : α) : Prop :=
  ∀ todo seen, Reaches next (a :: todo, seen) (todo, seen ++ within next height a)

theorem reaches_of_visits {height : Nat} {as : List α} (h : ∀ a ∈ as, Visits next height a)
    (todo seen : List α) :
    Reaches next (as ++ todo, seen) (todo, seen ++ as.flatMap (within next height)) := by
  induction as generalizing seen with
  | nil =>
    rw [List.nil_append, List.flatMap_nil, List.append_nil]
    exact .refl _
  | cons a as ih =>
    rw [List.forall_mem_cons] at h
    have hrest := ih h.2 (seen ++ within next height a)
    rw [List.append_assoc] at hrest
    exact (h.1 (as ++ todo) seen).trans hrest

/-- If what comes next is of ever lower rank, the walk goes no deeper than the rank. -/
theorem visits_of_rank {P : α → Prop} {rank : α → Nat}
    (hstep : ∀ a, P a → ∀ b ∈ next a, P b ∧ rank b < rank a) {height : Nat} {a : α} (ha : P a)
    (hrank : rank a < height) : Visits next height a := by
  induction height generalizing a with
  | zero => exact absurd hrank (Nat.not_lt_zero _)
  | succ height ih =>
    intro todo seen
    have hnext : ∀ b ∈ next a, Visits next height b := by
      intro b hb
      obtain ⟨hP, hlt⟩ := hstep a ha b hb
      exact ih hP (by omega)
    have hreaches := reaches_of_visits hnext todo (seen ++ [a])
    rw [List.append_assoc, List.singleton_append] at hreaches
    exact hreaches.round

theorem ends_of_visits {height : Nat} {as : List α} (h : ∀ a ∈ as, Visits next height a) :
    Ends next as (as.flatMap (within next height)) := by
  have hreaches := reaches_of_visits h [] []
  rwa [List.append_nil, List.nil_append] at hreaches

theorem Visits.ends {height : Nat} {a : α} (h : Visits next height a) :
    Ends next [a] (within next height a) := h [] []

/-! ## What is visited -/

section Ranked

variable {P : α → Prop} {rank : α → Nat} {height : Nat} {a b c : α}

/-- The second thing comes next to the first one, which is among those that are walked over. -/
def Onward (P : α → Prop) (next : α → List α) (a b : α) : Prop := P a ∧ b ∈ next a

theorem mem_within_iff (hstep : ∀ a, P a → ∀ b ∈ next a, P b ∧ rank b < rank a) (ha : P a)
    (hrank : rank a < height) : b ∈ within next height a ↔ ReflTransGen (Onward P next) a b := by
  induction height generalizing a with
  | zero => exact absurd hrank (Nat.not_lt_zero _)
  | succ height ih =>
    have hnext : ∀ c ∈ next a, b ∈ within next height c ↔ ReflTransGen (Onward P next) c b := by
      intro c hc
      obtain ⟨hP, hlt⟩ := hstep a ha c hc
      exact ih hP (by omega)
    rw [within, List.mem_cons, List.mem_flatMap, ReflTransGen.cases_head_iff]
    apply or_congr eq_comm
    constructor
    · rintro ⟨c, hc, hb⟩
      exact ⟨c, ⟨ha, hc⟩, (hnext c hc).1 hb⟩
    · rintro ⟨c, ⟨-, hc⟩, hb⟩
      exact ⟨c, hc, (hnext c hc).2 hb⟩

theorem within_eq_within (hstep : ∀ a, P a → ∀ b ∈ next a, P b ∧ rank b < rank a) (ha : P a)
    {other : Nat} (hrank : rank a < height) (hother : rank a < other) :
    within next height a = within next other a := by
  induction height generalizing a other with
  | zero => exact absurd hrank (Nat.not_lt_zero _)
  | succ height ih =>
    cases other with
    | zero => exact absurd hother (Nat.not_lt_zero _)
    | succ other =>
      rw [within, within]
      refine congrArg (a :: ·) (List.flatMap_congr fun c hc => ?_)
      obtain ⟨hP, hlt⟩ := hstep a ha c hc
      exact ih hP (by omega) (by omega)

theorem rank_le_of_onward (hstep : ∀ a, P a → ∀ b ∈ next a, P b ∧ rank b < rank a)
    (h : ReflTransGen (Onward P next) a b) : rank b ≤ rank a := by
  induction h with
  | refl => exact Nat.le_refl _
  | tail _ hlast ih =>
    have hlt := (hstep _ hlast.1 _ hlast.2).2
    omega

/-- Where each thing comes next to one other at most, no way leads from a thing to another one that
comes next to the same. -/
theorem eq_of_next_of_onward (hstep : ∀ a, P a → ∀ b ∈ next a, P b ∧ rank b < rank a)
    (hunique : ∀ a a' b, Onward P next a b → Onward P next a' b → a = a')
    (hb : Onward P next a b) (hc : Onward P next a c) (h : ReflTransGen (Onward P next) b c) :
    b = c := by
  obtain rfl | ⟨d, hbd, hdc⟩ := h.cases_tail
  · rfl
  · obtain rfl := hunique d a c hdc hc
    have hle := rank_le_of_onward hstep hbd
    have hlt := (hstep d hb.1 b hb.2).2
    omega

theorem nodup_within (hstep : ∀ a, P a → ∀ b ∈ next a, P b ∧ rank b < rank a)
    (hunique : ∀ a a' b, Onward P next a b → Onward P next a' b → a = a')
    (hnodup : ∀ a, P a → (next a).Nodup) (ha : P a) (hrank : rank a < height) :
    (within next height a).Nodup := by
  induction height generalizing a with
  | zero => exact List.nodup_nil
  | succ height ih =>
    have hnext : ∀ b ∈ next a, P b ∧ rank b < height := by
      intro b hb
      obtain ⟨hP, hlt⟩ := hstep a ha b hb
      exact ⟨hP, by omega⟩
    have hmem : ∀ b ∈ next a, ∀ c ∈ within next height b, ReflTransGen (Onward P next) b c :=
      fun b hb c hc => (mem_within_iff hstep (hnext b hb).1 (hnext b hb).2).1 hc
    rw [within, List.nodup_cons, List.nodup_flatMap]
    refine ⟨?_, fun b hb => ih (hnext b hb).1 (hnext b hb).2, ?_⟩
    · intro hself
      obtain ⟨b, hb, hback⟩ := List.mem_flatMap.1 hself
      have hle := rank_le_of_onward hstep (hmem b hb a hback)
      have hlt := (hstep a ha b hb).2
      omega
    · refine (hnodup a ha).pairwise_of_forall_ne fun b hb c hc hne d hbd hcd => ?_
      -- ways from two of them to one thing lie on one way, from one of the two to the other
      have hbackwards : Relator.RightUnique (Function.swap (Onward P next)) :=
        fun _ _ _ hx hy => hunique _ _ _ hx hy
      obtain h | h := ReflTransGen.total_of_right_unique hbackwards
        (reflTransGen_swap.2 (hmem b hb d hbd)) (reflTransGen_swap.2 (hmem c hc d hcd))
      · exact hne (eq_of_next_of_onward hstep hunique ⟨ha, hc⟩ ⟨ha, hb⟩
          (reflTransGen_swap.1 h)).symm
      · exact hne (eq_of_next_of_onward hstep hunique ⟨ha, hb⟩ ⟨ha, hc⟩
          (reflTransGen_swap.1 h))

/-- What is visited from a thing that is visited stands together. -/
theorem within_infix (hstep : ∀ a, P a → ∀ b ∈ next a, P b ∧ rank b < rank a)
    (h : ReflTransGen (Onward P next) a b) (ha : P a) (hrank : rank a < height) :
    within next height b <:+: within next height a := by
  induction h using ReflTransGen.head_induction_on with
  | refl => exact List.infix_rfl
  | @head a c hac _ ih =>
    obtain ⟨hP, hlt⟩ := hstep a ha c hac.2
    refine (ih hP (by omega)).trans ?_
    cases height with
    | zero => exact absurd hrank (Nat.not_lt_zero _)
    | succ height =>
      have hcut : within next (height + 1) c = within next height c :=
        within_eq_within hstep hP (by omega) (by omega)
      rw [hcut, within.eq_2 next a height]
      exact (List.infix_flatMap_of_mem hac.2 _).trans (List.suffix_cons a _).isInfix

end Ranked

theorem forall_within {Q : α → Prop} (hstep : ∀ a, Q a → ∀ b ∈ next a, Q b) {height : Nat} {a : α}
    (ha : Q a) : ∀ b ∈ within next height a, Q b := by
  induction height generalizing a with
  | zero => simp [within]
  | succ height ih =>
    rw [within]
    refine List.forall_mem_cons.2 ⟨ha, fun b hb => ?_⟩
    obtain ⟨c, hc, hb⟩ := List.mem_flatMap.1 hb
    exact ih (hstep a ha c hc) b hb

theorem map_within {β : Type} {next' : β → List β} {g : α → β}
    (h : ∀ a, (next a).map g = next' (g a)) (height : Nat) (a : α) :
    (within next height a).map g = within next' height (g a) := by
  induction height generalizing a with
  | zero => rfl
  | succ height ih =>
    rw [within, within, List.map_cons, List.map_flatMap, ← h a, List.flatMap_map]
    exact congrArg (g a :: ·) (List.flatMap_congr fun b _ => ih b)

/-! ## Walks that do not -/

theorem not_loop_of_acc {r : α → α → Prop} {a : α} (h : Acc (Function.swap r) a) :
    ¬ TransGen r a a := by
  induction h with
  | intro a _ ih =>
    intro hloop
    obtain ⟨b, hab, hba⟩ := TransGen.head'_iff.1 hloop
    exact ih b hab (TransGen.tail' hba hab)

/-- From all that an ending walk has to visit, what comes next can only be followed finitely far. -/
theorem acc_of_reaches {todo start seen : List α} (h : Reaches next (todo, start) ([], seen)) :
    ∀ a ∈ todo, Acc (Function.swap (Next next)) a := by
  obtain ⟨rounds, h⟩ := h
  induction rounds generalizing todo start with
  | zero =>
    obtain ⟨rfl, -⟩ : todo = [] ∧ start = seen := by simpa using h
    simp
  | succ rounds ih =>
    rw [Function.iterate_succ_apply] at h
    cases todo with
    | nil => simp
    | cons a todo =>
      have hacc := ih h
      refine List.forall_mem_cons.2 ⟨⟨a, fun b hb => ?_⟩, fun b hb => ?_⟩
      · exact hacc b (List.mem_append_left _ hb)
      · exact hacc b (List.mem_append_right _ hb)

theorem not_ends_of_loop {a : α} {seen : List α} (h : TransGen (Next next) a a) :
    ¬ Ends next [a] seen := fun hends =>
  not_loop_of_acc (acc_of_reaches hends a (List.mem_singleton_self a)) h

/-! ## Walks among finitely many things -/

section Finite

open Classical in
/-- How many of some things can be reached from one of them. -/
noncomputable def reach (next : α → List α) (all : List α) (a : α) : Nat :=
  (all.toFinset.filter fun b => ReflTransGen (Next next) a b).card

variable {all : List α} {a b : α}

theorem reach_le (a : α) : reach next all a ≤ all.length := by
  classical
  exact (Finset.card_filter_le _ _).trans (List.toFinset_card_le all)

/-- What comes next reaches less, as it does not reach back. -/
theorem reach_lt (ha : a ∈ all) (hloop : ¬ TransGen (Next next) a a) (hb : b ∈ next a) :
    reach next all b < reach next all a := by
  classical
  refine Finset.card_lt_card (Finset.ssubset_iff_of_subset ?_ |>.2 ⟨a, ?_, ?_⟩)
  · intro c hc
    rw [Finset.mem_filter] at hc ⊢
    exact ⟨hc.1, .head hb hc.2⟩
  · simp [ha, ReflTransGen.refl]
  · simp only [Finset.mem_filter, not_and]
    exact fun _ hback => hloop (TransGen.head'_iff.2 ⟨b, hb, hback⟩)

/-- Where each thing comes next to one other at most, what comes next to a thing outside of loops
is outside of them, too. -/
theorem not_loop_of_next (hclosed : ∀ a ∈ all, ∀ b ∈ next a, b ∈ all)
    (hunique : ∀ a ∈ all, ∀ a' ∈ all, ∀ b, b ∈ next a → b ∈ next a' → a = a') (ha : a ∈ all)
    (hloop : ¬ TransGen (Next next) a a) (hb : b ∈ next a) : ¬ TransGen (Next next) b b := by
  intro hback
  obtain ⟨c, hbc, hcb⟩ := TransGen.tail'_iff.1 hback
  have hc : c ∈ all := by
    clear hcb
    induction hbc with
    | refl => exact hclosed a ha b hb
    | tail _ hlast ih => exact hclosed _ ih _ hlast
  obtain rfl := hunique a ha c hc b hb hcb
  exact hloop (TransGen.head'_iff.2 ⟨b, hb, hbc⟩)

/-- Outside of loops no walk goes deeper than there are things. -/
theorem visits_of_not_loop (hclosed : ∀ a ∈ all, ∀ b ∈ next a, b ∈ all)
    (hunique : ∀ a ∈ all, ∀ a' ∈ all, ∀ b, b ∈ next a → b ∈ next a' → a = a') (ha : a ∈ all)
    (hloop : ¬ TransGen (Next next) a a) : Visits next (all.length + 1) a := by
  have hstep : ∀ a, a ∈ all ∧ ¬ TransGen (Next next) a a → ∀ b ∈ next a,
      (b ∈ all ∧ ¬ TransGen (Next next) b b) ∧ reach next all b < reach next all a := by
    intro a ⟨ha, hloop⟩ b hb
    exact ⟨⟨hclosed a ha b hb, not_loop_of_next hclosed hunique ha hloop hb⟩,
      reach_lt ha hloop hb⟩
  exact visits_of_rank hstep ⟨ha, hloop⟩ (Nat.lt_succ_of_le (reach_le a))

end Finite

end EvmInspect.Walk
