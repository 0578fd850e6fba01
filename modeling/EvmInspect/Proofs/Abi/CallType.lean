import EvmInspect.Proofs.Abi.Fits
import EvmInspect.Proofs.Ty.Shape
/-!
# Declared types and their call types

The call type of a declared type as a relation along the shape of both.  It holds only where no
sequence is empty, and then the check and the reader agree on which values stand behind an offset.
-/

namespace EvmInspect.Ty

/-- The declared type has the call type, and no array of fixed length, tuple or struct in it is
empty. -/
inductive HasCallType : Ty → AbiType → Prop
  | uint (bits : Nat) : HasCallType (.uint bits) (.uint bits)
  | int (bits : Nat) : HasCallType (.int bits) (.int bits)
  | bool : HasCallType .bool .bool
  | address : HasCallType .address .address
  | fixedBytes (size : Nat) : HasCallType (.fixedBytes size) (.fixedBytes size)
  | bytes (bound : Nat) : HasCallType (.bytes bound) .bytes
  | string (bound : Nat) : HasCallType (.string bound) .string
  | array {elem : Ty} {a : AbiType} {n : Nat} (hn : n ≠ 0) (helem : HasCallType elem a) :
      HasCallType (.array elem n) (.fixedArray a n)
  | dynArray {elem : Ty} {a : AbiType} (bound : Nat) (helem : HasCallType elem a) :
      HasCallType (.dynArray elem bound) (.array a)
  | tuple {members : List Ty} {types : List AbiType} (hne : types ≠ [])
      (hlen : members.length = types.length)
      (hmembers : ∀ t a, (t, a) ∈ members.zip types → HasCallType t a) :
      HasCallType (.tuple members) (.tuple types)
  | struct {fields : List (String × Ty)} {types : List AbiType} (name : String) (hne : types ≠ [])
      (hlen : (fields.map Prod.snd).length = types.length)
      (hmembers : ∀ t a, (t, a) ∈ (fields.map Prod.snd).zip types → HasCallType t a) :
      HasCallType (.struct name fields) (.tuple types)

/-- A value of the type stands behind an offset when it crosses a call boundary. -/
def isDynamic (t : Ty) : Bool := t.abiType?.any AbiType.isDynamic

theorem isDynamic_eq {t : Ty} {a : AbiType} (h : t.abiType? = some a) :
    t.isDynamic = a.isDynamic := by
  simp [isDynamic, h]

/-! ## Which declared types have a call type -/

theorem abiTypes?_of_forall₂ {members : List Ty} {types : List AbiType}
    (h : List.Forall₂ (fun t a => t.abiType? = some a) members types) :
    abiTypes? members = some types := by
  induction h with
  | nil => rfl
  | cons hhead _ ih => simp [abiTypes?, hhead, ih]

theorem HasCallType.abiType?_eq {t : Ty} {a : AbiType} (h : t.HasCallType a) :
    t.abiType? = some a := by
  induction h with
  | uint | int | bool | address | fixedBytes | bytes | string => rfl
  | array _ _ ih | dynArray _ _ ih => rw [abiType?, ih]; rfl
  | tuple _ hlen _ ih =>
    rw [abiType?, abiTypes?_of_forall₂ (forall₂_of_zip hlen ih)]
    rfl
  | struct _ _ hlen _ ih =>
    rw [abiType?, fieldAbiTypes?_eq, abiTypes?_of_forall₂ (forall₂_of_zip hlen ih)]
    rfl

/-- Where nothing is empty, the call type of a declared type is its call type along their shape. -/
theorem hasCallType_of_abiType? {t : Ty} {a : AbiType} (hs : t.solid = true)
    (h : t.abiType? = some a) : t.HasCallType a := by
  have hsequence {members : List Ty} {types : List AbiType} (hne : members ≠ [])
      (ih : ∀ t ∈ members, ∀ a, t.solid = true → t.abiType? = some a → t.HasCallType a)
      (hs : ∀ t ∈ members, t.solid = true) (h : abiTypes? members = some types) :
      types ≠ [] ∧ members.length = types.length ∧
        ∀ t a, (t, a) ∈ members.zip types → t.HasCallType a := by
    obtain ⟨hlen, hzip⟩ := List.forall₂_iff_zip.1 (abiTypes?_eq_some h)
    refine ⟨?_, hlen, fun t a hmem => ?_⟩
    · rintro rfl
      exact hne (List.length_eq_zero_iff.1 hlen)
    · have ht := (List.of_mem_zip hmem).1
      exact ih t ht a (hs t ht) (hzip hmem)
  induction t using memberInduction generalizing a with
  | uint | int | bool | address | fixedBytes | bytes | string =>
    simp only [abiType?, Option.some.injEq] at h
    subst h
    constructor
  | array elem n ih =>
    simp only [solid, everywhere, hasMember, Bool.and_eq_true, bne_iff_ne] at hs
    simp only [abiType?, Option.map_eq_some_iff] at h
    obtain ⟨e, he, rfl⟩ := h
    exact .array hs.1 (ih hs.2 he)
  | dynArray elem bound ih =>
    simp only [solid, everywhere, Bool.and_eq_true] at hs
    simp only [abiType?, Option.map_eq_some_iff] at h
    obtain ⟨e, he, rfl⟩ := h
    exact .dynArray bound (ih hs.2 he)
  | tuple members ih =>
    obtain ⟨hne, hs⟩ := everywhere_tuple hs
    simp only [abiType?, Option.map_eq_some_iff] at h
    obtain ⟨types, htypes, rfl⟩ := h
    obtain ⟨htypes, hlen, hmembers⟩ := hsequence (by simpa [hasMember] using hne)
      (fun t ht a => ih t ht) hs htypes
    exact .tuple htypes hlen hmembers
  | struct name fields ih =>
    obtain ⟨hne, hs⟩ := everywhere_struct hs
    simp only [abiType?, Option.map_eq_some_iff] at h
    obtain ⟨types, htypes, rfl⟩ := h
    rw [fieldAbiTypes?_eq] at htypes
    obtain ⟨htypes, hlen, hmembers⟩ := hsequence (by simpa [hasMember] using hne)
      (fun t ht a => ih t ht) hs htypes
    exact .struct name htypes hlen hmembers
  | mapping => simp [abiType?] at h

/-- What holds no mapping can cross a call boundary. -/
theorem exists_abiType? {t : Ty} (hplain : t.mappingFree = true) : ∃ a, t.abiType? = some a := by
  induction t using memberInduction with
  | uint | int | bool | address | fixedBytes | bytes | string => exact ⟨_, rfl⟩
  | array elem n ih | dynArray elem bound ih =>
    simp only [mappingFree, everywhere, Bool.and_eq_true] at hplain
    obtain ⟨a, ha⟩ := ih hplain.2
    exact ⟨_, by rw [abiType?, ha]; rfl⟩
  | tuple members ih =>
    obtain ⟨-, hplain⟩ := everywhere_tuple hplain
    obtain ⟨types, htypes⟩ := exists_forall₂ fun t ht => ih t ht (hplain t ht)
    exact ⟨_, by rw [abiType?, abiTypes?_of_forall₂ htypes]; rfl⟩
  | struct name fields ih =>
    obtain ⟨-, hplain⟩ := everywhere_struct hplain
    obtain ⟨types, htypes⟩ := exists_forall₂ fun t ht => ih t ht (hplain t ht)
    exact ⟨_, by rw [abiType?, fieldAbiTypes?_eq, abiTypes?_of_forall₂ htypes]; rfl⟩
  | mapping => simp [mappingFree, everywhere, isMapping] at hplain

theorem exists_hasCallType {t : Ty} (hplain : t.mappingFree = true) (hsolid : t.solid = true) :
    ∃ a, t.HasCallType a := by
  obtain ⟨a, ha⟩ := exists_abiType? hplain
  exact ⟨a, hasCallType_of_abiType? hsolid ha⟩

namespace HasCallType

variable {t : Ty} {a : AbiType}

theorem isEmpty_eq (h : t.HasCallType a) : a.isEmpty = false := by
  have hsequence {types : List AbiType} (hne : types ≠ [])
      (hempty : ∀ a ∈ types, a.isEmpty = false) : AbiType.allEmpty types = false := by
    obtain ⟨a, as, rfl⟩ := List.exists_cons_of_ne_nil hne
    rw [AbiType.allEmpty, hempty a (by simp), Bool.false_and]
  induction h with
  | uint | int | bool | address | fixedBytes | bytes | string => rfl
  | array hn _ ih => rw [AbiType.isEmpty, ih, beq_false_of_ne hn, Bool.false_or]
  | dynArray _ _ ih => rw [AbiType.isEmpty, ih]
  | tuple hne hlen _ ih | struct _ hne hlen _ ih =>
    exact hsequence hne (forall_of_forall₂ (forall₂_of_zip hlen ih))

theorem anyIndirect_eq {types : List AbiType} (h : ∀ a ∈ types, a.isIndirect = a.isDynamic) :
    AbiType.anyIndirect types = AbiType.anyDynamic types := by
  induction types with
  | nil => rfl
  | cons a as ih =>
    rw [List.forall_mem_cons] at h
    rw [AbiType.anyIndirect, AbiType.anyDynamic, h.1, ih h.2]

/-- The reader follows an offset where the check does. -/
theorem isIndirect_eq (h : t.HasCallType a) : a.isIndirect = a.isDynamic := by
  induction h with
  | uint | int | bool | address | fixedBytes | bytes | string | dynArray => rfl
  | array hn _ ih => rw [AbiType.isIndirect, AbiType.isDynamic, ih, bne_iff_ne.2 hn, Bool.true_and]
  | tuple _ hlen _ ih | struct _ _ hlen _ ih =>
    exact anyIndirect_eq (forall_of_forall₂ (forall₂_of_zip hlen ih))

end HasCallType

end EvmInspect.Ty
