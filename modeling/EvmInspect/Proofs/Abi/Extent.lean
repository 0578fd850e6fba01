import EvmInspect.Proofs.Abi.CallType
import EvmInspect.Proofs.Abi.Check
/-!
# How much of an encoding the strict check covers

What each step of the check says about the region it looks at.  Sizes of static types are clamped
in the check; a region that is cut to such a size and passes is long enough for the values
themselves, so that the size was exact.
-/

namespace EvmInspect.Abi

def numberIn (region : List UInt8) (pos : Nat) : Nat := natOfBytes ((region.drop pos).take 32)

/-- Bytes of the heads of values of these types, without a limit. -/
def extent (types : List AbiType) : Nat := (types.map AbiType.headSize).sum

variable {region shorter : List UInt8} {base head pos n : Nat} {t : AbiType}
  {types : List AbiType}

theorem extent_cons (t : AbiType) (ts : List AbiType) :
    extent (t :: ts) = t.headSize + extent ts := List.sum_cons

theorem extent_replicate (n : Nat) (t : AbiType) :
    extent (List.replicate n t) = n * t.headSize := by
  rw [extent, List.map_replicate, List.sum_replicate_nat]

/-! ## Steps of the check -/

theorem length_word : ((region.drop pos).take 32).length = 32 ↔ pos + 32 ≤ region.length := by
  rw [List.length_take, List.length_drop]
  omega

theorem wordAt_eq_ok {word : List UInt8} :
    wordAt region pos base = .ok word ↔
      pos + 32 ≤ region.length ∧ word = (region.drop pos).take 32 := by
  simp only [wordAt, length_word]
  split <;> simp_all [eq_comm]

theorem numberAt_eq_ok {role : Role} :
    numberAt region pos base role = .ok n ↔
      pos + 32 ≤ region.length ∧ numberIn region pos ≤ Size.limit ∧ n = numberIn region pos := by
  constructor
  · intro h
    obtain ⟨word, hword, h⟩ := ok_of_bind h
    obtain ⟨hlen, rfl⟩ := wordAt_eq_ok.1 hword
    simp only at h
    split at h
    · rename_i hle
      simp only [pure, Except.pure, Except.ok.injEq] at h
      exact ⟨hlen, hle, h.symm⟩
    · simp [throw, throwThe, MonadExceptOf.throw] at h
  · rintro ⟨hlen, hle, rfl⟩
    unfold numberAt
    rw [wordAt_eq_ok.2 ⟨hlen, rfl⟩]
    simp only [bind, Except.bind, pure, Except.pure]
    exact if_pos hle

theorem of_tailAt {tail : List UInt8} (h : tailAt region pos base head = .ok (tail, n)) :
    numberAt region pos base .offset = .ok n ∧ n < region.length ∧ tail = region.drop n := by
  obtain ⟨offset, hoffset, h⟩ := ok_of_bind h
  obtain ⟨_, -, h⟩ := ok_of_bind h
  obtain ⟨_, hinside, h⟩ := ok_of_bind h
  rw [require_eq_ok, decide_eq_true_eq] at hinside
  cases h
  exact ⟨hoffset, hinside, rfl⟩

theorem of_checkPlaced_dynamic {size : Nat} {check : List UInt8 → Nat → Except Fault Unit}
    (hdynamic : t.isDynamic = true) (h : checkPlaced t size check region base head pos = .ok ()) :
    pos + 32 ≤ region.length ∧ numberIn region pos ≤ Size.limit ∧
      numberIn region pos < region.length ∧
      ∃ start, check (region.drop (numberIn region pos)) start = .ok () := by
  rw [checkPlaced, if_pos hdynamic] at h
  cases htail : tailAt region pos base head with
  | error e => simp [htail] at h
  | ok p =>
    simp only [htail] at h
    obtain ⟨hoffset, hinside, hrest⟩ := of_tailAt htail
    obtain ⟨hlen, hle, hn⟩ := numberAt_eq_ok.1 hoffset
    rw [hrest, hn] at h
    rw [hn] at hinside
    exact ⟨hlen, hle, hinside, _, h⟩

theorem of_checkPlaced_static {size : Nat} {check : List UInt8 → Nat → Except Fault Unit}
    (hstatic : t.isDynamic = false) (h : checkPlaced t size check region base head pos = .ok ()) :
    check ((region.drop pos).take size) (base + pos) = .ok () := by
  rwa [checkPlaced, if_neg (by simp [hstatic])] at h

theorem of_checkValue_tuple (h : checkValue (.tuple types) region base = .ok ()) :
    ∃ head, checkMembers types region base head 0 = .ok () :=
  ⟨_, (checkValue_tuple_eq_ok.1 h).2⟩

theorem of_checkValue_array (h : checkValue (.array t) region base = .ok ()) :
    t.Measured ∧ 32 ≤ region.length ∧ numberIn region 0 ≤ Size.limit ∧
      ∃ start head,
        checkMembers (List.replicate (numberIn region 0) t) (region.drop 32) start head 0 =
          .ok () := by
  have helements := h
  rw [checkValue] at h
  obtain ⟨n, hnumber, -⟩ := ok_of_bind h
  rw [checkValue_array_eq_ok hnumber] at helements
  obtain ⟨hmeasured, -, helements⟩ := helements
  obtain ⟨hword, hle, rfl⟩ := numberAt_eq_ok.1 hnumber
  obtain ⟨head, helements⟩ := of_checkValue_tuple helements
  rw [Nat.zero_add] at hword
  exact ⟨hmeasured, hword, hle, _, head, helements⟩

/-! ## Static values -/

/-- If the type is static, a region that passes its check has a word and all bytes of a value. -/
def Covered (t : AbiType) : Prop :=
  t.isDynamic = false → ∀ region base, checkValue t region base = .ok () →
    32 ≤ region.length ∧ t.staticSize ≤ region.length

theorem Covered.le_of_checkPlaced (ht : Covered t)
    (h : checkPlaced t t.headSize (checkValue t) region base head pos = .ok ()) :
    32 ≤ t.headSize ∧ pos + t.headSize ≤ region.length := by
  cases hd : t.isDynamic with
  | true =>
    obtain ⟨hlen, -⟩ := of_checkPlaced_dynamic hd h
    rw [AbiType.headSize, if_pos hd]
    exact ⟨Nat.le_refl _, hlen⟩
  | false =>
    obtain ⟨hword, hsize⟩ := ht hd _ _ (of_checkPlaced_static hd h)
    rw [List.length_take, List.length_drop, AbiType.headSize_of_static hd] at hword hsize
    rw [AbiType.headSize_of_static hd]
    omega

theorem extent_le_of_checkMembers (ht : ∀ t ∈ types, Covered t) (hpos : pos ≤ region.length)
    (h : checkMembers types region base head pos = .ok ()) :
    pos + extent types ≤ region.length := by
  induction types generalizing pos with
  | nil => exact hpos
  | cons t ts ih =>
    rw [List.forall_mem_cons] at ht
    obtain ⟨⟨-, hhere⟩, hrest⟩ := checkMembers_cons_eq_ok.1 h
    obtain ⟨-, hle⟩ := ht.1.le_of_checkPlaced hhere
    have hlast := ih ht.2 hle hrest
    rw [extent_cons]
    omega

theorem extent_le_of_checkValue (ht : ∀ t ∈ types, Covered t) (hne : types ≠ [])
    (h : checkValue (.tuple types) region base = .ok ()) :
    32 ≤ extent types ∧ extent types ≤ region.length := by
  obtain ⟨head, hmembers⟩ := of_checkValue_tuple h
  have hle := extent_le_of_checkMembers ht (Nat.zero_le _) hmembers
  rw [Nat.zero_add] at hle
  refine ⟨?_, hle⟩
  obtain ⟨t, ts, rfl⟩ := List.exists_cons_of_ne_nil hne
  obtain ⟨⟨-, hhere⟩, -⟩ := checkMembers_cons_eq_ok.1 hmembers
  obtain ⟨hword, -⟩ := (ht t (by simp)).le_of_checkPlaced hhere
  rw [extent_cons]
  omega

theorem staticSize_fixedArray_le (hstatic : (AbiType.fixedArray t n).isDynamic = false) :
    (AbiType.fixedArray t n).staticSize ≤ extent (List.replicate n t) := by
  rw [AbiType.isDynamic] at hstatic
  rw [AbiType.staticSize, extent_replicate, AbiType.headSize_of_static hstatic]
  exact Nat.min_le_left _ _

end EvmInspect.Abi

namespace EvmInspect.Ty.HasCallType

open Abi

theorem covered {t : Ty} {a : AbiType} (h : t.HasCallType a) : Covered a := by
  induction h with
  | uint | int | bool | address | fixedBytes =>
    intro _ region base hcheck
    rw [checkValue] at hcheck
    obtain ⟨word, hword, -⟩ := ok_of_bind hcheck
    obtain ⟨hlen, -⟩ := wordAt_eq_ok.1 hword
    rw [Nat.zero_add] at hlen
    exact ⟨hlen, hlen⟩
  | bytes | string | dynArray =>
    intro hstatic
    simp [AbiType.isDynamic] at hstatic
  | @array _ a n hn _ ih =>
    intro hstatic region base hcheck
    have hitems : ∀ t ∈ List.replicate n a, Covered t := by
      intro t ht
      rw [List.eq_of_mem_replicate ht]
      exact ih
    have hne : List.replicate n a ≠ [] := by simpa using hn
    rw [checkValue_fixedArray] at hcheck
    have hle := extent_le_of_checkValue hitems hne hcheck
    have hsize := staticSize_fixedArray_le hstatic
    omega
  | tuple hne hlen _ ih | struct _ hne hlen _ ih =>
    intro hstatic region base hcheck
    have hle := extent_le_of_checkValue (forall_of_forall₂ (forall₂_of_zip hlen ih)) hne hcheck
    rw [AbiType.staticSize, ← AbiType.sum_headSize_of_static hstatic]
    exact ⟨Nat.le_trans hle.1 hle.2, hle.2⟩

end EvmInspect.Ty.HasCallType
