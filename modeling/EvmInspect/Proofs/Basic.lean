import EvmInspect.Run
import Mathlib.Data.List.Forall2
/-!
# What the proofs share

Results that are given in steps, and runs of a program that may stop instead; relations between two
lists element by element, and runs of elements that stand at a position of a longer list.
-/

namespace EvmInspect

variable {α β γ : Type}

theorem bind_eq_ok {ε : Type} {x : Except ε α} {f : α → Except ε β} {b : β} :
    x >>= f = .ok b ↔ ∃ a, x = .ok a ∧ f a = .ok b := by
  cases x with
  | error e => simp [bind, Except.bind]
  | ok a => simp [bind, Except.bind]

theorem ok_of_bind {ε : Type} {x : Except ε α} {f : α → Except ε β} {b : β}
    (h : x >>= f = .ok b) : ∃ a, x = .ok a ∧ f a = .ok b :=
  bind_eq_ok.1 h

theorem check_bind_eq_ok {ε : Type} {x : Except ε Unit} {f : Unit → Except ε β} {b : β} :
    x >>= f = .ok b ↔ x = .ok () ∧ f () = .ok b := by
  cases x with
  | error e => simp [bind, Except.bind]
  | ok => simp [bind, Except.bind]

theorem pure_eq_ok {ε : Type} {a b : α} : (pure a : Except ε α) = .ok b ↔ a = b := by
  simp [pure, Except.pure]

theorem map_eq_ok {ε : Type} {x : Except ε α} {f : α → β} {b : β} :
    x.map f = .ok b ↔ ∃ a, x = .ok a ∧ f a = b := by
  cases x <;> simp [Except.map]

theorem map_eq_error {ε : Type} {x : Except ε α} {f : α → β} {e : ε} :
    x.map f = .error e ↔ x = .error e := by
  cases x <;> simp [Except.map]

theorem mapError_eq_ok {ε δ : Type} {x : Except ε α} {f : ε → δ} {a : α} :
    x.mapError f = .ok a ↔ x = .ok a := by
  cases x <;> simp [Except.mapError]

@[simp] theorem throw_ne_ok {ε : Type} {e : ε} {a : α} : (throw e : Except ε α) ≠ .ok a := by
  simp [throw, throwThe, MonadExceptOf.throw]

theorem ite_throw_eq_ok {ε : Type} {c : Prop} [Decidable c] {a b : α} {e : ε} :
    (if c then pure a else throw e : Except ε α) = .ok b ↔ c ∧ a = b := by
  by_cases hc : c <;> simp [hc, pure_eq_ok]

theorem ite_error_eq_ok {ε : Type} {c : Prop} [Decidable c] {x : Except ε α} {e : ε} {a : α} :
    (if c then x else .error e) = .ok a ↔ c ∧ x = .ok a := by
  by_cases hc : c <;> simp [hc]

/-! ## Runs that may stop -/

namespace Guarded

variable {ε : Type}

theorem bind_of {x : Except ε α} {f : α → Except ε β} {g : α → Guarded ε β}
    (h : ∀ a, x = .ok a → g a = of (f a)) : of x >>= g = of (x >>= f) := by
  cases x with
  | error e => rfl
  | ok a => exact h a rfl

theorem of_ite {c : Prop} [Decidable c] (x y : Except ε α) :
    (if c then of x else of y) = of (if c then x else y) := (apply_ite of c x y).symm

theorem some_bind (a : α) (g : α → Guarded ε β) : (liftM (some a) : Guarded ε α) >>= g = g a :=
  rfl

end Guarded

/-! ## Faults that are reported -/

section

variable {ε : Type} {stops : ε → Bool}

/-- What fails does so with a fault at which the program goes on. -/
def Reported (stops : ε → Bool) (x : Except ε α) : Prop := ∀ e, x = .error e → stops e = false

theorem reported_ok (a : α) : Reported stops (.ok a) := nofun

theorem reported_error {e : ε} (h : stops e = false) :
    Reported stops (.error e : Except ε α) := by
  intro e' heq
  cases heq
  exact h

theorem Reported.bind {x : Except ε α} {f : α → Except ε β} (hx : Reported stops x)
    (hf : ∀ a, Reported stops (f a)) : Reported stops (x >>= f) := by
  cases x with
  | error e => exact reported_error (hx e rfl)
  | ok a => exact hf a

theorem reported_ite {c : Prop} [Decidable c] {a : α} {e : ε} (h : stops e = false) :
    Reported stops (if c then pure a else throw e) := by
  split
  · exact reported_ok a
  · exact reported_error h

end

/-! ## Lists side by side -/

theorem forall₂_replicate {R : α → β → Prop} {a : α} {bs : List β} (h : ∀ b ∈ bs, R a b) :
    List.Forall₂ R (List.replicate bs.length a) bs := by
  induction bs with
  | nil => exact .nil
  | cons b bs ih =>
    rw [List.forall_mem_cons] at h
    exact .cons h.1 (ih h.2)

theorem forall_of_copies {R : α → β → Prop} {a : α} {n : Nat} {bs : List β}
    (h : List.Forall₂ R (List.replicate n a) bs) : ∀ b ∈ bs, R a b := by
  induction n generalizing bs with
  | zero =>
    cases h
    simp
  | succ n ih =>
    obtain ⟨b, bs, hb, hbs, rfl⟩ := List.forall₂_cons_left_iff.1 h
    exact List.forall_mem_cons.2 ⟨hb, ih hbs⟩

theorem forall₂_copies {R : α → β → Prop} {a : α} {b : β} (h : R a b) (n : Nat) :
    List.Forall₂ R (List.replicate n a) (List.replicate n b) := by
  have hall : ∀ c ∈ List.replicate n b, R a c := by
    intro c hc
    rw [List.eq_of_mem_replicate hc]
    exact h
  have hcopies := forall₂_replicate hall
  rwa [List.length_replicate] at hcopies

theorem forall₂_of_zip {R : α → β → Prop} {as : List α} {bs : List β}
    (hlen : as.length = bs.length) (h : ∀ a b, (a, b) ∈ as.zip bs → R a b) :
    List.Forall₂ R as bs :=
  List.forall₂_iff_zip.2 ⟨hlen, fun hp => h _ _ hp⟩

theorem forall_right_of_forall₂ {R : α → β → Prop} {P : β → Prop} {as : List α} {bs : List β}
    (h : List.Forall₂ R as bs) (hP : ∀ a ∈ as, ∀ b, R a b → P b) : ∀ b ∈ bs, P b := by
  induction h with
  | nil => simp
  | cons hhead _ ih =>
    rw [List.forall_mem_cons] at hP
    exact List.forall_mem_cons.2 ⟨hP.1 _ hhead, ih hP.2⟩

theorem forall_of_forall₂ {P : β → Prop} {as : List α} {bs : List β}
    (h : List.Forall₂ (fun _ b => P b) as bs) : ∀ b ∈ bs, P b :=
  forall_right_of_forall₂ h fun _ _ _ hb => hb

theorem exists_forall₂ {R : α → β → Prop} {as : List α} (h : ∀ a ∈ as, ∃ b, R a b) :
    ∃ bs, List.Forall₂ R as bs := by
  induction as with
  | nil => exact ⟨[], .nil⟩
  | cons a as ih =>
    rw [List.forall_mem_cons] at h
    obtain ⟨b, hb⟩ := h.1
    obtain ⟨bs, hbs⟩ := ih h.2
    exact ⟨b :: bs, .cons hb hbs⟩

theorem exists_of_forall₂ {R : α → β → Prop} {as : List α} {bs : List β}
    (h : List.Forall₂ R as bs) : ∀ a ∈ as, ∃ b, R a b := by
  induction h with
  | nil => simp
  | cons hhead _ ih => exact List.forall_mem_cons.2 ⟨⟨_, hhead⟩, ih⟩

theorem forall₂_of_common {R : α → β → Prop} {S : α → γ → Prop} {T : β → γ → Prop}
    {as : List α} {bs : List β} {cs : List γ} (hR : List.Forall₂ R as bs)
    (hS : List.Forall₂ S as cs) (h : ∀ a ∈ as, ∀ b c, R a b → S a c → T b c) :
    List.Forall₂ T bs cs := by
  induction hR generalizing cs with
  | nil =>
    cases hS
    exact .nil
  | cons hhead _ ih =>
    obtain ⟨c, cs, hc, hcs, rfl⟩ := List.forall₂_cons_left_iff.1 hS
    rw [List.forall_mem_cons] at h
    exact .cons (h.1 _ _ hhead hc) (ih hcs h.2)

/-! ## Steps over a list -/

theorem mapM_eq_some {f : α → Option β} {as : List α} {bs : List β} :
    as.mapM f = some bs ↔ List.Forall₂ (fun a b => f a = some b) as bs := by
  induction as generalizing bs with
  | nil =>
    rw [List.mapM_nil, List.forall₂_nil_left_iff]
    exact Option.some_inj.trans eq_comm
  | cons a as ih =>
    simp only [List.mapM_cons, Option.bind_eq_bind, Option.bind_eq_some_iff, ih,
      List.forall₂_cons_left_iff]
    constructor
    · rintro ⟨b, hb, bs, hbs, heq⟩
      exact ⟨b, bs, hb, hbs, (Option.some_inj.1 heq).symm⟩
    · rintro ⟨b, bs, hb, hbs, rfl⟩
      exact ⟨b, hb, bs, hbs, rfl⟩

theorem mapM_eq_none {f : α → Option β} {as : List α} :
    as.mapM f = none ↔ ∃ a ∈ as, f a = none := by
  constructor
  · intro h
    by_contra hnone
    have hsome : ∀ a ∈ as, ∃ b, f a = some b := fun a ha =>
      Option.ne_none_iff_exists'.1 fun hstops => hnone ⟨a, ha, hstops⟩
    obtain ⟨bs, hbs⟩ := exists_forall₂ hsome
    rw [mapM_eq_some.2 hbs] at h
    cases h
  · rintro ⟨a, ha, hstops⟩
    cases h : as.mapM f with
    | none => rfl
    | some bs =>
      obtain ⟨b, hb⟩ := exists_of_forall₂ (mapM_eq_some.1 h) a ha
      rw [hstops] at hb
      cases hb

theorem filterMap_of_mapM {f : α → Option (Option β)} {as : List α} {bs : List (Option β)}
    (h : as.mapM f = some bs) : bs.filterMap id = as.filterMap fun a => (f a).join := by
  have hsteps := mapM_eq_some.1 h
  clear h
  induction hsteps with
  | nil => rfl
  | cons hhead _ ih => rw [List.filterMap_cons, List.filterMap_cons, hhead, ih]; rfl

theorem mapM_congr {f g : α → Option β} {as : List α} (h : ∀ a ∈ as, f a = g a) :
    as.mapM f = as.mapM g := by
  induction as with
  | nil => rfl
  | cons a as ih =>
    rw [List.forall_mem_cons] at h
    rw [List.mapM_cons, List.mapM_cons, h.1, ih h.2]

theorem mapM_eq_some_map {f : α → Option β} {g : α → β} {as : List α}
    (h : ∀ a ∈ as, f a = some (g a)) : as.mapM f = some (as.map g) := by
  rw [mapM_eq_some, List.forall₂_map_right_iff, List.forall₂_same]
  exact h

/-! ### Rows of names -/

section

variable {κ : Type} {read : α → Option β} (name : α → κ) {as : List α} {row : List (κ × β)}

theorem row_eq_none :
    (as.mapM fun a => (read a).map fun b => (name a, b)) = none ↔ ∃ a ∈ as, read a = none := by
  simp only [mapM_eq_none, Option.map_eq_none_iff]

theorem map_fst_of_row (h : (as.mapM fun a => (read a).map fun b => (name a, b)) = some row) :
    row.map Prod.fst = as.map name := by
  have hsteps := mapM_eq_some.1 h
  clear h
  induction hsteps with
  | nil => rfl
  | cons hhead _ ih =>
    obtain ⟨b, -, rfl⟩ := Option.map_eq_some_iff.1 hhead
    rw [List.map_cons, List.map_cons, ih]

theorem mem_of_row (h : (as.mapM fun a => (read a).map fun b => (name a, b)) = some row)
    {key : κ} {b : β} : (key, b) ∈ row ↔ ∃ a ∈ as, name a = key ∧ read a = some b := by
  have hsteps := mapM_eq_some.1 h
  clear h
  induction hsteps with
  | nil => simp
  | @cons a e as row hhead _ ih =>
    obtain ⟨b', hb', rfl⟩ := Option.map_eq_some_iff.1 hhead
    simp only [List.mem_cons, Prod.mk.injEq, ih, exists_eq_or_imp, hb', Option.some.injEq,
      eq_comm (a := key), eq_comm (a := b)]

end

/-- Consecutive elements at a position are two runs, one behind the other. -/
theorem append_prefix_drop {front back list : List α} {pos : Nat} :
    front ++ back <+: list.drop pos ↔
      front <+: list.drop pos ∧ back <+: list.drop (pos + front.length) := by
  rw [← List.drop_drop]
  constructor
  · rintro ⟨rest, h⟩
    rw [← h]
    exact ⟨⟨back ++ rest, by simp⟩, ⟨rest, by simp⟩⟩
  · rintro ⟨⟨rest, h⟩, hback⟩
    rw [← h, List.drop_left] at hback
    obtain ⟨last, rfl⟩ := hback
    exact ⟨last, by rw [← h, List.append_assoc]⟩

theorem take_of_prefix_drop {run list : List α} {pos : Nat} (h : run <+: list.drop pos) :
    (list.drop pos).take run.length = run := by
  obtain ⟨rest, h⟩ := h
  rw [← h, List.take_left]

theorem takeWhile_run {p : α → Bool} {word rest : List α} (hword : ∀ c ∈ word, p c = true)
    (hrest : ∀ c ∈ rest.head?, p c = false) : (word ++ rest).takeWhile p = word := by
  rw [List.takeWhile_append_of_pos hword]
  cases rest with
  | nil => simp
  | cons c cs => simp [hrest c rfl]

theorem dropWhile_run {p : α → Bool} {word rest : List α} (hword : ∀ c ∈ word, p c = true)
    (hrest : ∀ c ∈ rest.head?, p c = false) : (word ++ rest).dropWhile p = rest := by
  rw [List.dropWhile_append_of_pos hword]
  cases rest with
  | nil => rfl
  | cons c cs => simp [hrest c rfl]

end EvmInspect
