import EvmInspect.Proofs.Text.Quoted
import EvmInspect.Proofs.Ty.Text
import Mathlib.Data.List.Induction
/-!
# Texts at the end of other texts

A text that is made of parts is taken apart from its end.  Each part stands behind a bracket or a
blank, or behind nothing, and ends in none of them.  Of two texts with the same letters that end in
such parts, one part starts where the other does; of two lists in brackets that end at the same
place, one has the parts of the other.
-/

namespace EvmInspect.Text

open Ty (listed)

variable {a b left left' mid : List Char} {bracket : Char} {s t : String} {xs ys : List String}

/-- Marks that stand before a part. -/
def openers : List Char := ['[', '(', ' ']

/-- A part may start behind the text. -/
def Opens (left : List Char) : Prop := ∀ c ∈ left.getLast?, c ∈ openers

/-- The text ends, and in no mark that stands before a part. -/
def Closes (a : List Char) : Prop := ∃ c ∈ a.getLast?, c ∉ openers

/-- At the end of one and the same text, the two parts start at the same place. -/
def SameStart (a b : List Char) : Prop :=
  ∀ left left', Opens left → Opens left' → left ++ a = left' ++ b → left = left'

theorem opens_nil : Opens [] := by simp [Opens]

theorem opens_concat {c : Char} (h : c ∈ openers) (left : List Char) : Opens (left ++ [c]) := by
  simpa [Opens] using h

theorem opens_append (hleft : Opens left) (hmid : Opens mid) : Opens (left ++ mid) := by
  intro c hc
  rw [List.getLast?_append] at hc
  cases hlast : mid.getLast? with
  | none => exact hleft c (by simpa [hlast] using hc)
  | some d => exact hmid c (by simpa [hlast] using hc)

theorem Opens.of_append (h : Opens (left ++ mid)) : Opens mid := by
  intro c hc
  apply h c
  rw [List.getLast?_append, Option.mem_def.1 hc]
  rfl

theorem closes_concat {c : Char} (h : c ∉ openers) (a : List Char) : Closes (a ++ [c]) :=
  ⟨c, by simp, h⟩

theorem Closes.append (h : Closes a) (left : List Char) : Closes (left ++ a) := by
  obtain ⟨c, hc, hmark⟩ := h
  refine ⟨c, ?_, hmark⟩
  rw [List.getLast?_append, Option.mem_def.1 hc]
  rfl

theorem not_opens_of_closes (h : Closes a) : ¬Opens a := by
  obtain ⟨c, hc, hmark⟩ := h
  exact fun hopens => hmark (hopens c hc)

/-! ## Single parts -/

/-- Parts start at the same place if neither has the other at its end behind a mark. -/
theorem sameStart_of_overhang (hab : ∀ mid, Opens mid → a = mid ++ b → mid = [])
    (hba : ∀ mid, Opens mid → b = mid ++ a → mid = []) : SameStart a b := by
  intro left left' hleft hleft' h
  rcases List.append_eq_append_iff.1 h with ⟨mid, rfl, ha⟩ | ⟨mid, rfl, hb⟩
  · rw [hab mid hleft'.of_append ha, List.append_nil]
  · rw [hba mid hleft.of_append hb, List.append_nil]

/-- There is a text, and in it no mark that stands before a part. -/
def Unmarked (a : List Char) : Prop := a ≠ [] ∧ ∀ c ∈ a, c ∉ openers

instance (a : List Char) : Decidable (Unmarked a) :=
  @instDecidableAnd _ _ _ (List.decidableBAll (fun c => c ∉ openers) a)

theorem Unmarked.append (ha : Unmarked a) (hb : Unmarked b) : Unmarked (a ++ b) :=
  ⟨by simp [ha.1], fun c hc => (List.mem_append.1 hc).elim (ha.2 c) (hb.2 c)⟩

theorem Unmarked.closes (h : Unmarked a) : Closes a := by
  obtain ⟨c, hc⟩ := Option.isSome_iff_exists.1 (List.getLast?_isSome.2 h.1)
  exact ⟨c, hc, h.2 c (List.mem_of_getLast? hc)⟩

theorem Unmarked.eq_nil (h : Unmarked (mid ++ b)) (hmid : Opens mid) : mid = [] := by
  by_contra hne
  obtain ⟨c, hc⟩ := Option.isSome_iff_exists.1 (List.getLast?_isSome.2 hne)
  exact h.2 c (List.mem_append_left b (List.mem_of_getLast? hc)) (hmid c hc)

theorem unmarked_of_isAlphanum (hne : a ≠ []) (h : ∀ c ∈ a, c.isAlphanum = true) :
    Unmarked a := by
  refine ⟨hne, fun c hc hmark => ?_⟩
  have hletter := h c hc
  simp only [openers, List.mem_cons, List.not_mem_nil, or_false] at hmark
  rcases hmark with rfl | rfl | rfl <;> exact absurd hletter (by decide)

theorem Unmarked.sameStart (ha : Unmarked a) (hb : Unmarked b) : SameStart a b :=
  sameStart_of_overhang (fun _ hmid h => (h ▸ ha).eq_nil hmid) fun _ hmid h => (h ▸ hb).eq_nil hmid

theorem sameStart_quote (s t : String) : SameStart (quote s).toList (quote t).toList := by
  have hslash {mid : List Char} (hmid : Opens mid) : mid.getLast? ≠ some '\\' := by
    intro h
    have hmark := hmid _ h
    revert hmark
    decide
  exact sameStart_of_overhang (fun _ hmid h => eq_nil_of_quote_eq h (hslash hmid))
    fun _ hmid h => eq_nil_of_quote_eq h (hslash hmid)

theorem closes_quote (s : String) : Closes (quote s).toList := by
  rw [toList_quote, ← List.cons_append]
  exact closes_concat (by decide) _

theorem SameStart.labelled (h : SameStart a b) {label : List Char} (hlabel : Opens label) :
    SameStart (label ++ a) (label ++ b) := by
  intro left left' hleft hleft' heq
  rw [← List.append_assoc, ← List.append_assoc] at heq
  have hstart := h _ _ (opens_append hleft hlabel) (opens_append hleft' hlabel) heq
  exact List.append_cancel_right hstart

/-! ## Lists of parts -/

/-- What stands before one more part behind others. -/
def before (xs : List String) : List Char := if xs = [] then [] else listed xs ++ [',', ' ']

theorem listed_concat (xs : List String) (s : String) :
    listed (xs ++ [s]) = before xs ++ s.toList := by
  induction xs with
  | nil => simp [before, Ty.listed_singleton]
  | cons x xs ih =>
    cases xs with
    | nil => simp [before, Ty.listed_singleton, Ty.listed_cons_cons]
    | cons y ys =>
      rw [List.cons_append, List.cons_append, Ty.listed_cons_cons, ← List.cons_append, ih]
      simp [before, Ty.listed_cons_cons]

theorem getLast?_before (left : List Char) (bracket : Char) (xs : List String) :
    (left ++ bracket :: before xs).getLast? = some (if xs = [] then bracket else ' ') := by
  by_cases hxs : xs = [] <;> simp [before, hxs, List.getLast?_append, List.getLast?_cons]

/-- A list in brackets that is empty is no list whose last part closes. -/
theorem ne_of_closes (hopen : bracket ∈ openers) (hs : Closes s.toList) :
    left ++ bracket :: listed [] ≠ left' ++ bracket :: listed (xs ++ [s]) := by
  intro h
  rw [Ty.listed_nil, listed_concat, ← List.cons_append, ← List.append_assoc] at h
  exact not_opens_of_closes (hs.append _) (h ▸ opens_concat hopen left)

/-- Of two lists in brackets that end the same text, one has the parts of the other, provided that
the parts which are compared from the end start at the same place. -/
theorem eq_of_listed (hopen : bracket = '[' ∨ bracket = '(')
    (hstart : ∀ p ∈ xs.reverse.zip ys.reverse, SameStart p.1.toList p.2.toList)
    (hxs : ∀ s ∈ xs, Closes s.toList) (hys : ∀ s ∈ ys, Closes s.toList)
    (h : left ++ bracket :: listed xs = left' ++ bracket :: listed ys) :
    left = left' ∧ xs = ys := by
  have hmark : bracket ∈ openers ∧ bracket ≠ ' ' := by
    rcases hopen with rfl | rfl <;> decide
  -- the last parts of both first; what is left of a text is a list again
  induction xs using List.reverseRecOn generalizing ys with
  | nil =>
    rcases List.eq_nil_or_concat ys with rfl | ⟨ys, y, rfl⟩
    · exact ⟨List.append_cancel_right h, rfl⟩
    · rw [List.concat_eq_append] at h hys
      exact absurd h (ne_of_closes hmark.1 (hys y (by simp)))
  | append_singleton xs x ih =>
    rcases List.eq_nil_or_concat ys with rfl | ⟨ys, y, rfl⟩
    · exact absurd h.symm (ne_of_closes hmark.1 (hxs x (by simp)))
    rw [List.concat_eq_append] at h hys hstart ⊢
    simp only [List.reverse_append, List.reverse_singleton, List.singleton_append,
      List.zip_cons_cons, List.forall_mem_cons] at hstart
    have hopens (left : List Char) (xs : List String) : Opens (left ++ bracket :: before xs) := by
      intro c hc
      rw [getLast?_before, Option.mem_some] at hc
      subst hc
      split
      · exact hmark.1
      · decide
    simp only [listed_concat, ← List.cons_append, ← List.append_assoc] at h
    have hbefore := hstart.1 _ _ (hopens left xs) (hopens left' ys) h
    rw [hbefore, List.append_cancel_left_eq, String.toList_inj] at h
    subst h
    -- the marks before the last parts say whether there are others
    have hlast := congrArg List.getLast? hbefore
    rw [getLast?_before, getLast?_before, Option.some.injEq] at hlast
    by_cases hx : xs = []
    · by_cases hy : ys = []
      · subst hx hy
        exact ⟨List.append_cancel_right hbefore, rfl⟩
      · rw [if_pos hx, if_neg hy] at hlast
        exact absurd hlast hmark.2
    · by_cases hy : ys = []
      · rw [if_neg hx, if_pos hy] at hlast
        exact absurd hlast.symm hmark.2
      · simp only [before, hx, hy, if_false, ← List.cons_append, ← List.append_assoc,
          List.append_cancel_right_eq] at hbefore
        obtain ⟨hleft, rfl⟩ := ih hstart.2 (fun s hs => hxs s (List.mem_append_left _ hs))
          (fun s hs => hys s (List.mem_append_left _ hs)) hbefore
        exact ⟨hleft, rfl⟩

end EvmInspect.Text
