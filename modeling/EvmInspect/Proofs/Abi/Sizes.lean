import EvmInspect.Abi.Check
import EvmInspect.Proofs.Basic
import Mathlib.Algebra.GroupWithZero.Nat
/-!
# Sizes that a type has

Sizes of types in an arithmetic that never stops: products are clamped, and sums are exact.  Where
the program gets to a size at all, it is this one.  It gets to the bytes of a value's place if the
value stands behind an offset, or if the sizes of members add up to an addressable number all the
way down.
-/

namespace EvmInspect

namespace Size

theorem mul_eq_of_le {a b : Nat} (h : a * b ≤ limit) : mul a b = a * b := Nat.min_eq_left h

theorem add?_eq_some {a b n : Nat} : add? a b = some n ↔ a + b ≤ limit ∧ a + b = n := by
  unfold add?
  by_cases h : a + b ≤ limit <;> simp [h]

end Size

namespace AbiType

/-- Induction over a type of the call interface, with the hypothesis for each member. -/
@[elab_as_elim]
theorem memberInduction {motive : AbiType → Prop} (bool : motive .bool)
    (int : ∀ bits, motive (.int bits)) (uint : ∀ bits, motive (.uint bits))
    (fixedBytes : ∀ size, motive (.fixedBytes size)) (address : motive .address)
    (function : motive .function) (bytes : motive .bytes) (string : motive .string)
    (array : ∀ elem, motive elem → motive (.array elem))
    (fixedArray : ∀ elem n, motive elem → motive (.fixedArray elem n))
    (tuple : ∀ members, (∀ a ∈ members, motive a) → motive (.tuple members))
    (struct : ∀ name fieldNames members, (∀ a ∈ members, motive a) →
      motive (.struct name fieldNames members)) (a : AbiType) : motive a := by
  refine @AbiType.rec motive (fun members => ∀ a ∈ members, motive a) bool int uint fixedBytes
    address function bytes string array fixedArray tuple struct ?nil ?cons a
  case nil => simp
  case cons =>
    intro a as ha has
    simpa [ha] using has

mutual

def staticSize : AbiType → Nat
  | .fixedArray elem n => Size.mul n elem.staticSize
  | .tuple members | .struct _ _ members => staticSizes members
  | _ => Size.wordBytes

def staticSizes : List AbiType → Nat
  | [] => 0
  | t :: ts => t.staticSize + staticSizes ts

end

def headSize (t : AbiType) : Nat := if t.isDynamic then Size.wordBytes else t.staticSize

def headsSize (types : List AbiType) : Nat := min (types.map headSize).sum Size.limit

/-- The program gets to the bytes of a value's place. -/
def Measured (t : AbiType) : Prop := t.headSize?.isSome = true

instance : DecidablePred Measured := fun t =>
  inferInstanceAs (Decidable (t.headSize?.isSome = true))

variable {t : AbiType} {ts types : List AbiType} {n : Nat}

/-! ## Static types -/

theorem staticSizes_of_forall (h : ∀ t ∈ ts, ∀ n, t.staticSize? = some n → t.staticSize = n)
    (hsize : staticSizes? ts = some n) : staticSizes ts = n := by
  induction ts generalizing n with
  | nil => exact Option.some_inj.1 hsize
  | cons t ts ih =>
    rw [List.forall_mem_cons] at h
    obtain ⟨first, hfirst, hsize⟩ := Option.bind_eq_some_iff.1 hsize
    obtain ⟨rest, hrest, hsum⟩ := Option.bind_eq_some_iff.1 hsize
    rw [staticSizes, h.1 first hfirst, ih h.2 hrest]
    exact (Size.add?_eq_some.1 hsum).2

theorem staticSizes_eq_sum (ts : List AbiType) : staticSizes ts = (ts.map staticSize).sum := by
  induction ts with
  | nil => rfl
  | cons t ts ih => rw [staticSizes, ih, List.map_cons, List.sum_cons]

theorem staticSize_eq (h : t.staticSize? = some n) : t.staticSize = n := by
  induction t using memberInduction generalizing n with
  | bool | int | uint | fixedBytes | address | function | bytes | string | array =>
    exact Option.some_inj.1 h
  | fixedArray elem count ih =>
    obtain ⟨size, hsize, rfl⟩ := Option.map_eq_some_iff.1 h
    rw [staticSize, ih hsize]
  | tuple members ih | struct _ _ members ih =>
    exact staticSizes_of_forall (fun t ht n => ih t ht) h

theorem staticSize?_eq (h : t.staticSize?.isSome = true) : t.staticSize? = some t.staticSize := by
  obtain ⟨n, hn⟩ := Option.isSome_iff_exists.1 h
  rw [hn, staticSize_eq hn]

theorem isSome_staticSizes? : (staticSizes? ts).isSome = true ↔
    (∀ t ∈ ts, t.staticSize?.isSome = true) ∧ staticSizes ts ≤ Size.limit := by
  induction ts with
  | nil => simp [staticSizes?, staticSizes]
  | cons t ts ih =>
    simp only [staticSizes?, Option.isSome_iff_exists, Option.bind_eq_bind,
      Option.bind_eq_some_iff, Size.add?_eq_some, List.forall_mem_cons] at ih ⊢
    constructor
    · rintro ⟨n, first, hfirst, rest, hrest, hle, -⟩
      have hsizes := staticSizes_of_forall (fun t _ n => staticSize_eq) hrest
      rw [staticSizes, staticSize_eq hfirst, hsizes]
      exact ⟨⟨⟨first, hfirst⟩, (ih.1 ⟨rest, hrest⟩).1⟩, hle⟩
    · rintro ⟨⟨⟨first, hfirst⟩, hall⟩, hle⟩
      rw [staticSizes] at hle
      obtain ⟨rest, hrest⟩ := ih.2 ⟨hall, by omega⟩
      have hsizes := staticSizes_of_forall (fun t _ n => staticSize_eq) hrest
      rw [staticSize_eq hfirst, hsizes] at hle
      exact ⟨_, first, hfirst, rest, hrest, hle, rfl⟩

/-! ## Places of values -/

theorem Measured.headSize?_eq (h : t.Measured) : t.headSize? = some t.headSize := by
  unfold Measured headSize? at h
  unfold headSize? headSize
  split at h
  · simp_all
  · rename_i hstatic
    rw [if_neg hstatic, if_neg hstatic, staticSize?_eq h]

theorem headSize?_eq_some : t.headSize? = some n ↔ t.Measured ∧ t.headSize = n := by
  constructor
  · intro h
    have hmeasured : t.Measured := by rw [Measured, h]; rfl
    exact ⟨hmeasured, Option.some_inj.1 (hmeasured.headSize?_eq.symm.trans h)⟩
  · rintro ⟨h, rfl⟩
    exact h.headSize?_eq

theorem headSize?_eq_none (h : ¬t.Measured) : t.headSize? = none := by
  simpa [Measured] using h

theorem measured_of_dynamic (h : t.isDynamic = true) : t.Measured := by
  rw [Measured, headSize?, if_pos h]
  rfl

theorem measured_of_static (h : t.isDynamic = false) :
    t.Measured ↔ t.staticSize?.isSome = true := by
  rw [Measured, headSize?, if_neg (by simp [h])]

theorem headSize_of_static (h : t.isDynamic = false) : t.headSize = t.staticSize := by
  rw [headSize, if_neg (by simp [h])]

theorem measured_fixedArray : (AbiType.fixedArray t n).Measured ↔ t.Measured := by
  cases h : t.isDynamic with
  | true => exact iff_of_true (measured_of_dynamic h) (measured_of_dynamic h)
  | false =>
    have harray : (AbiType.fixedArray t n).isDynamic = false := h
    rw [measured_of_static h, measured_of_static harray, staticSize?, Option.isSome_map]

theorem anyDynamic_eq_false : anyDynamic ts = false ↔ ∀ t ∈ ts, t.isDynamic = false := by
  induction ts with
  | nil => simp [anyDynamic]
  | cons t ts ih => simp [anyDynamic, ih]

theorem sum_headSize_of_static (h : anyDynamic ts = false) :
    (ts.map headSize).sum = staticSizes ts := by
  induction ts with
  | nil => rfl
  | cons t ts ih =>
    rw [anyDynamic, Bool.or_eq_false_iff] at h
    rw [List.map_cons, List.sum_cons, headSize_of_static h.1, ih h.2, staticSizes]

theorem measured_tuple (h : ∀ t ∈ ts, t.Measured) (hle : (ts.map headSize).sum ≤ Size.limit) :
    (AbiType.tuple ts).Measured := by
  cases hd : anyDynamic ts with
  | true => exact measured_of_dynamic hd
  | false =>
    have hstatic := anyDynamic_eq_false.1 hd
    have htuple : (AbiType.tuple ts).isDynamic = false := hd
    rw [sum_headSize_of_static hd] at hle
    rw [measured_of_static htuple, staticSize?, isSome_staticSizes?]
    exact ⟨fun t ht => (measured_of_static (hstatic t ht)).1 (h t ht), hle⟩

theorem foldlM_headSize? (h : ∀ t ∈ types, t.Measured) {start : Nat} (hstart : start ≤ Size.limit) :
    types.foldlM (fun n t => t.headSize?.map (Size.add n)) start =
      some (min (start + (types.map headSize).sum) Size.limit) := by
  induction types generalizing start with
  | nil => simp [hstart]
  | cons t ts ih =>
    rw [List.forall_mem_cons] at h
    have hstep : Size.add start t.headSize ≤ Size.limit := Nat.min_le_right _ _
    rw [List.foldlM_cons, h.1.headSize?_eq, Option.map_some, Option.bind_eq_bind,
      Option.bind_some, ih h.2 hstep, Size.add, List.map_cons, List.sum_cons]
    congr 1
    omega

theorem headsSize?_eq (h : ∀ t ∈ types, t.Measured) :
    headsSize? types = some (headsSize types) := by
  rw [headsSize?, foldlM_headSize? h (Nat.zero_le _), Nat.zero_add, headsSize]

theorem foldlM_headSize?_eq_none (h : ∃ t ∈ types, ¬t.Measured) (start : Nat) :
    types.foldlM (fun n t => t.headSize?.map (Size.add n)) start = none := by
  induction types generalizing start with
  | nil => simp at h
  | cons t ts ih =>
    rw [List.foldlM_cons]
    by_cases ht : t.Measured
    · rw [ht.headSize?_eq]
      refine ih ?_ _
      simpa [ht] using h
    · rw [headSize?_eq_none ht]
      rfl

theorem headsSize?_eq_some :
    headsSize? types = some n ↔ (∀ t ∈ types, t.Measured) ∧ headsSize types = n := by
  by_cases h : ∀ t ∈ types, t.Measured
  · rw [headsSize?_eq h, Option.some_inj, iff_true_intro h, true_and]
  · have hnone : headsSize? types = none := foldlM_headSize?_eq_none (by simpa using h) 0
    simp [hnone, h]

end AbiType

namespace Abi

theorem sized_eq_ok {size : Run Nat} {n : Nat} : sized size = .ok n ↔ size = some n := by
  cases size <;> simp [sized]

theorem sized_bind_eq_ok {size : Run Nat} {α : Type} {f : Nat → Except Fault α} {a : α} :
    sized size >>= f = .ok a ↔ ∃ n, size = some n ∧ f n = .ok a := by
  cases size <;> simp [sized, bind, Except.bind]

end Abi

end EvmInspect
