import EvmInspect.Abi.Decode
import EvmInspect.Proofs.Abi.Parts
import EvmInspect.Proofs.Abi.Sizes
/-!
# Values that fit types

A value suits a type of the call interface if it has its shape, every word of it is filled up as the
type demands, and it stands behind an offset where the type's values do.  From the value of such a
pair one can tell what the check works out from the type: whether it stands behind an offset, and
how many bytes its place takes.  A value fits if besides no sequence in it is empty, and then the
reader works out the same.
-/

namespace EvmInspect

namespace AbiType

/-- The value has the type, words included.  An array of length 0 has static elements: without any
of them the value does not stand behind an offset.  Elements that take no bytes are as many as can
be counted. -/
inductive Suits : AbiType → Value → Prop
  | bool (b : Bool) : Suits .bool (.bool b)
  | int {bits : Nat} {word : Word} (hword : Abi.signExtended word.toBytes bits = true) :
      Suits (.int bits) (.int word bits)
  | uint {bits : Nat} {word : Word} (hword : word.fitsUnsigned bits = true) :
      Suits (.uint bits) (.uint word bits)
  | fixedBytes {size : Nat} {word : Word} (hword : (word.toBytes.drop size).all (· == 0) = true) :
      Suits (.fixedBytes size) (.fixedBytes word size)
  | address (a : Address) : Suits .address (.address a)
  | bytes (data : List UInt8) : Suits .bytes (.bytes data)
  | string (s : String) : Suits .string (.string s)
  | array {elem : AbiType} {items : List Value}
      (hcount : (∀ v ∈ items, v.encode = []) → items.length ≤ Size.limit)
      (hitems : ∀ v ∈ items, Suits elem v) : Suits (.array elem) (.array items)
  | fixedArray {elem : AbiType} {items : List Value} (hstatic : items = [] → elem.isDynamic = false)
      (hitems : ∀ v ∈ items, Suits elem v) :
      Suits (.fixedArray elem items.length) (.fixedArray items)
  | tuple {members : List AbiType} {items : List Value} (hlen : members.length = items.length)
      (hitems : ∀ t v, (t, v) ∈ members.zip items → Suits t v) :
      Suits (.tuple members) (.tuple items)

/-- The value has the type, words included, no array of fixed length or tuple in it is empty, and
the elements of arrays are measured. -/
inductive Fits : AbiType → Value → Prop
  | bool (b : Bool) : Fits .bool (.bool b)
  | int {bits : Nat} {word : Word} (hword : Abi.signExtended word.toBytes bits = true) :
      Fits (.int bits) (.int word bits)
  | uint {bits : Nat} {word : Word} (hword : word.fitsUnsigned bits = true) :
      Fits (.uint bits) (.uint word bits)
  | fixedBytes {size : Nat} {word : Word} (hword : (word.toBytes.drop size).all (· == 0) = true) :
      Fits (.fixedBytes size) (.fixedBytes word size)
  | address (a : Address) : Fits .address (.address a)
  | bytes (data : List UInt8) : Fits .bytes (.bytes data)
  | string (s : String) : Fits .string (.string s)
  | array {elem : AbiType} {items : List Value} (helem : elem.isEmpty = false)
      (hsize : elem.Measured) (hitems : ∀ v ∈ items, Fits elem v) :
      Fits (.array elem) (.array items)
  | fixedArray {elem : AbiType} {items : List Value} (hne : items ≠ []) (hsize : elem.Measured)
      (hitems : ∀ v ∈ items, Fits elem v) :
      Fits (.fixedArray elem items.length) (.fixedArray items)
  | tuple {members : List AbiType} {items : List Value} (hne : members ≠ [])
      (hlen : members.length = items.length)
      (hitems : ∀ t v, (t, v) ∈ members.zip items → Fits t v) :
      Fits (.tuple members) (.tuple items)

mutual

/-- In the value the elements of every array are measured.  Only without any of them can they be
too large to be. -/
def measures : AbiType → Value → Bool
  | .array elem, .array items | .fixedArray elem _, .fixedArray items =>
    elem.headSize?.isSome && items.all fun v => elem.measures v
  | .tuple members, .tuple items => allMeasure members items
  | _, _ => true

def allMeasure : List AbiType → List Value → Bool
  | t :: ts, v :: vs => t.measures v && allMeasure ts vs
  | _, _ => true

end

/-! ## Which values stand behind an offset -/

theorem anyDynamic_replicate {n : Nat} (hn : n ≠ 0) (t : AbiType) :
    anyDynamic (List.replicate n t) = t.isDynamic := by
  induction n with
  | zero => exact absurd rfl hn
  | succ n ih =>
    rw [List.replicate_succ, anyDynamic]
    cases n with
    | zero => simp [anyDynamic]
    | succ n => rw [ih (Nat.succ_ne_zero n), Bool.or_self]

theorem anyIndirect_replicate {n : Nat} (hn : n ≠ 0) (t : AbiType) :
    anyIndirect (List.replicate n t) = t.isIndirect := by
  induction n with
  | zero => exact absurd rfl hn
  | succ n ih =>
    rw [List.replicate_succ, anyIndirect]
    cases n with
    | zero => simp [anyIndirect]
    | succ n => rw [ih (Nat.succ_ne_zero n), Bool.or_self]

theorem anyDynamic_eq_of_forall₂ {types : List AbiType} {items : List Value}
    (h : List.Forall₂ (fun t v => t.isDynamic = v.isDynamic) types items) :
    anyDynamic types = Value.anyDynamic items := by
  induction h with
  | nil => rfl
  | cons hhead _ ih => rw [anyDynamic, Value.anyDynamic, hhead, ih]

theorem anyIndirect_eq_of_forall₂ {types : List AbiType} {items : List Value}
    (h : List.Forall₂ (fun t v => t.isIndirect = v.isDynamic) types items) :
    anyIndirect types = Value.anyDynamic items := by
  induction h with
  | nil => rfl
  | cons hhead _ ih => rw [anyIndirect, Value.anyDynamic, hhead, ih]

theorem Suits.isDynamic_eq {t : AbiType} {v : Value} (h : Suits t v) :
    t.isDynamic = v.isDynamic := by
  induction h with
  | bool | int | uint | fixedBytes | address | bytes | string | array => rfl
  | @fixedArray elem items hstatic _ ih =>
    rw [isDynamic, Value.isDynamic]
    by_cases hne : items = []
    · rw [hstatic hne, hne, Value.anyDynamic]
    · have hn : items.length ≠ 0 := fun h0 => hne (List.length_eq_zero_iff.1 h0)
      rw [← anyDynamic_replicate hn, anyDynamic_eq_of_forall₂ (forall₂_replicate ih)]
  | tuple hlen _ ih =>
    rw [isDynamic, Value.isDynamic, anyDynamic_eq_of_forall₂ (forall₂_of_zip hlen ih)]

namespace Fits

theorem isIndirect_eq {t : AbiType} {v : Value} (h : Fits t v) : t.isIndirect = v.isDynamic := by
  induction h with
  | bool | int | uint | fixedBytes | address | bytes | string | array => rfl
  | @fixedArray elem items hne _ _ ih =>
    have hn : items.length ≠ 0 := fun h0 => hne (List.length_eq_zero_iff.1 h0)
    have hbne : (items.length != 0) = true := by simpa using hn
    rw [isIndirect, Value.isDynamic, hbne, Bool.true_and, ← anyIndirect_replicate hn,
      anyIndirect_eq_of_forall₂ (forall₂_replicate ih)]
  | tuple _ hlen _ ih =>
    rw [isIndirect, Value.isDynamic, anyIndirect_eq_of_forall₂ (forall₂_of_zip hlen ih)]

theorem isEmpty_eq {t : AbiType} {v : Value} (h : Fits t v) : t.isEmpty = false := by
  induction h with
  | bool | int | uint | fixedBytes | address | bytes | string => rfl
  | array helem => exact helem
  | @fixedArray elem items hne _ _ ih =>
    obtain ⟨v, vs, rfl⟩ := List.exists_cons_of_ne_nil hne
    simp [isEmpty, ih v]
  | @tuple members items hne hlen _ ih =>
    obtain ⟨t, ts, rfl⟩ := List.exists_cons_of_ne_nil hne
    cases items with
    | nil => simp at hlen
    | cons v vs => simp [isEmpty, allEmpty, ih t v (by simp)]

end Fits

end AbiType

/-! ## How many bytes values take -/

namespace Value

def part (v : Value) : Bool × List UInt8 := (v.isDynamic, v.encode)

theorem parts_eq_map (vs : List Value) : parts vs = vs.map part := by
  induction vs with
  | nil => rfl
  | cons v vs ih => rw [parts, ih]; rfl

theorem parts_cons (v : Value) (vs : List Value) : parts (v :: vs) = v.part :: parts vs := rfl

theorem partHead_static {v : Value} (h : v.isDynamic = false) :
    partHead v.part = v.encode.length := by
  simp [partHead, part, h]

theorem partHead_dynamic {v : Value} (h : v.isDynamic = true) : partHead v.part = 32 := by
  simp [partHead, part, h]

theorem anyDynamic_eq_false {vs : List Value} :
    anyDynamic vs = false ↔ ∀ v ∈ vs, v.isDynamic = false := by
  induction vs with
  | nil => simp [anyDynamic]
  | cons v vs ih => simp [anyDynamic, ih]

theorem length_assemble_parts {vs : List Value} (h : anyDynamic vs = false) :
    (assemble (parts vs)).length = headsSize (parts vs) := by
  apply length_assemble_static
  rw [parts_eq_map]
  intro p hp
  obtain ⟨v, hv, rfl⟩ := List.mem_map.1 hp
  exact anyDynamic_eq_false.1 h v hv

theorem headsSize_parts_of_forall {vs : List Value} {size : Nat}
    (h : ∀ v ∈ vs, partHead v.part = size) : headsSize (parts vs) = vs.length * size := by
  induction vs with
  | nil => simp [parts, headsSize]
  | cons v vs ih =>
    rw [parts_cons, headsSize_cons, h v (List.mem_cons_self ..),
      ih fun w hw => h w (List.mem_cons_of_mem _ hw), List.length_cons, Nat.succ_mul, Nat.add_comm]

theorem partHead_le_headsSize {v : Value} {vs : List Value} (h : v ∈ vs) :
    partHead v.part ≤ headsSize (parts vs) := by
  induction vs with
  | nil => simp at h
  | cons w vs ih =>
    rw [parts_cons, headsSize_cons]
    rcases List.mem_cons.1 h with rfl | h
    · exact Nat.le_add_right _ _
    · exact Nat.le_trans (ih h) (Nat.le_add_left _ _)

theorem le_partHead {v : Value} (h : 32 ≤ v.encode.length) : 32 ≤ partHead v.part := by
  unfold partHead
  split
  · exact Nat.le_refl _
  · exact h

theorem mul_length_le_headsSize {vs : List Value} (h : ∀ v ∈ vs, 32 ≤ v.encode.length) :
    32 * vs.length ≤ headsSize (parts vs) := by
  induction vs with
  | nil => exact Nat.zero_le _
  | cons v vs ih =>
    have hv := le_partHead (h v (List.mem_cons_self ..))
    have hvs := ih fun w hw => h w (List.mem_cons_of_mem _ hw)
    rw [parts_cons, headsSize_cons, List.length_cons]
    omega

end Value

namespace AbiType

open Value (parts partHead)

theorem staticSizes_eq_of_forall₂ {types : List AbiType} {items : List Value}
    (h : List.Forall₂ (fun t v => v.isDynamic = false → v.encode.length ≤ Size.limit →
      t.staticSize = v.encode.length) types items)
    (hstatic : Value.anyDynamic items = false) (hle : Value.headsSize (parts items) ≤ Size.limit) :
    staticSizes types = Value.headsSize (parts items) := by
  induction h with
  | nil => rfl
  | @cons t v ts vs hv _ ih =>
    simp only [Value.anyDynamic, Bool.or_eq_false_iff] at hstatic
    rw [Value.parts_cons, Value.headsSize_cons, Value.partHead_static hstatic.1] at hle ⊢
    rw [staticSizes, hv hstatic.1 (by omega), ih hstatic.2 (by omega)]

theorem Fits.le_length_encode {t : AbiType} {v : Value} (h : Fits t v) : 32 ≤ v.encode.length := by
  induction h with
  | bool | int | uint | fixedBytes | address => simp [Value.encode]
  | bytes | string | array => simp [Value.encode]
  | @fixedArray elem items hne _ _ ih =>
    have hpos := List.length_pos_iff.2 hne
    have hheads := Value.headsSize_le_length_assemble (parts items)
    have hwords := Value.mul_length_le_headsSize ih
    rw [Value.encode]
    omega
  | @tuple members items hne hlen _ ih =>
    have hpos := List.length_pos_iff.2 hne
    have hheads := Value.headsSize_le_length_assemble (parts items)
    have hwords := Value.mul_length_le_headsSize (forall_of_forall₂ (forall₂_of_zip hlen ih))
    rw [Value.encode]
    omega

theorem Fits.suits {t : AbiType} {v : Value} (h : Fits t v) : Suits t v := by
  induction h with
  | bool b => exact .bool b
  | int hword => exact .int hword
  | uint hword => exact .uint hword
  | fixedBytes hword => exact .fixedBytes hword
  | address a => exact .address a
  | bytes data => exact .bytes data
  | string s => exact .string s
  | @array elem items _ _ hitems ih =>
    refine .array (fun hempty => ?_) ih
    cases items with
    | nil => exact Nat.zero_le _
    | cons v vs =>
      have hword := (hitems v (by simp)).le_length_encode
      simp [hempty v (by simp)] at hword
  | fixedArray hne _ _ ih => exact .fixedArray (fun hnil => absurd hnil hne) ih
  | tuple _ hlen _ ih => exact .tuple hlen ih

theorem allMeasure_iff {types : List AbiType} {items : List Value} :
    allMeasure types items = true ↔ ∀ t v, (t, v) ∈ types.zip items → t.measures v = true := by
  induction types generalizing items with
  | nil => simp [allMeasure]
  | cons t ts ih =>
    cases items with
    | nil => simp [allMeasure]
    | cons v vs => simp [allMeasure, ih, or_imp, forall_and]

theorem allMeasure_replicate (t : AbiType) (items : List Value) :
    allMeasure (List.replicate items.length t) items = items.all fun v => t.measures v := by
  induction items with
  | nil => simp [allMeasure]
  | cons v vs ih => rw [List.length_cons, List.replicate_succ, allMeasure, ih, List.all_cons]

theorem Fits.measures {t : AbiType} {v : Value} (h : Fits t v) : t.measures v = true := by
  induction h with
  | bool | int | uint | fixedBytes | address | bytes | string => simp [AbiType.measures]
  | array _ hsize _ ih | fixedArray _ hsize _ ih =>
    rw [AbiType.measures, Bool.and_eq_true, List.all_eq_true]
    exact ⟨hsize, ih⟩
  | tuple _ _ _ ih =>
    rw [AbiType.measures]
    exact allMeasure_iff.2 ih

theorem allMeasure_of_fits {types : List AbiType} {items : List Value}
    (h : List.Forall₂ Fits types items) : allMeasure types items = true :=
  allMeasure_iff.2 fun _ _ hmem => ((List.forall₂_iff_zip.1 h).2 hmem).measures

namespace Suits

theorem staticSize_eq {t : AbiType} {v : Value} (h : Suits t v) (hstatic : v.isDynamic = false)
    (hle : v.encode.length ≤ Size.limit) : t.staticSize = v.encode.length := by
  induction h with
  | bool | int | uint | fixedBytes | address => simp [staticSize, Value.encode, Size.wordBytes]
  | bytes | string | array => simp [Value.isDynamic] at hstatic
  | @fixedArray elem items _ _ ih =>
    have hlen : (Value.fixedArray items).encode.length = Value.headsSize (parts items) :=
      Value.length_assemble_parts hstatic
    have hsize : ∀ v ∈ items, partHead v.part = elem.staticSize := by
      intro v hv
      have hv0 := Value.anyDynamic_eq_false.1 hstatic v hv
      have hvle := Value.partHead_le_headsSize hv
      rw [Value.partHead_static hv0] at hvle ⊢
      exact (ih v hv hv0 (by omega)).symm
    rw [hlen, Value.headsSize_parts_of_forall hsize] at hle ⊢
    rw [staticSize, Size.mul_eq_of_le hle]
  | @tuple members items hlen _ ih =>
    have hsize : (Value.tuple items).encode.length = Value.headsSize (parts items) :=
      Value.length_assemble_parts hstatic
    rw [hsize] at hle ⊢
    exact staticSizes_eq_of_forall₂ (forall₂_of_zip hlen ih) hstatic hle

theorem headSize_eq {t : AbiType} {v : Value} (h : Suits t v) (hle : partHead v.part ≤ Size.limit) :
    t.headSize = partHead v.part := by
  unfold headSize
  rw [h.isDynamic_eq]
  cases hd : v.isDynamic with
  | true => rw [Value.partHead_dynamic hd]; rfl
  | false =>
    rw [Value.partHead_static hd] at hle ⊢
    exact h.staticSize_eq hd hle

end Suits

end AbiType

end EvmInspect
