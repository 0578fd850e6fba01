import EvmInspect.Proofs.Abi.Agree
import EvmInspect.Proofs.Abi.Decoded
/-!
# Values that stand in place

A type without byte strings, texts, dynamic arrays and mappings has the same bytes in the native
layout and in an encoding.  The two decoders check words in different ways, add up sizes in
different ways, and only one of them is limited in how deep it goes; apart from that limit they
accept the same bytes and give the same values.
-/

namespace EvmInspect

namespace Ty

/-- All values of the type take the same room where they stand, if those in them do. -/
def isFixed : Ty → Bool
  | .bytes _ | .string _ | .dynArray _ _ | .mapping _ _ => false
  | _ => true

/-- The type is made of words, arrays of fixed length, tuples and structs only. -/
def inPlace (t : Ty) : Bool := t.everywhere isFixed

end Ty

namespace Abi

variable {t : Ty} {a : AbiType} {members : List Ty} {types : List AbiType}
  {data : List UInt8} {v : Value}

/-! ## Words -/

/-- The bytes before an address are zero exactly if nothing is left when it is shifted out. -/
theorem allZero_take_toBytes (w : Word) :
    allZero (w.toBytes.take 12) = true ↔ w.toNat >>> 160 = 0 := by
  have hlt : w.toNat < 256 ^ 12 * 256 ^ 20 := w.isLt
  have hfront : w.toNat / 256 ^ 20 < 256 ^ 12 := Nat.div_lt_of_lt_mul (by omega)
  have hbytes : w.toBytes.take 12 = bytesOfNat 12 (w.toNat / 256 ^ 20) := take_bytesOfNat 12 20 _
  rw [hbytes, allZero, bytesOfNat_all_eq hfront, natOfBytes_replicate_zero,
    Nat.shiftRight_eq_div_pow]
  exact Iff.rfl

theorem ofBytes_drop_toBytes (w : Word) :
    Address.ofBytes (w.toBytes.drop 12) = BitVec.ofNat 160 w.toNat := by
  have hbytes : w.toBytes.drop 12 = bytesOfNat 20 w.toNat := drop_bytesOfNat 12 20 _
  rw [Address.ofBytes, hbytes, natOfBytes_bytesOfNat, ← BitVec.toNat_inj, BitVec.toNat_ofNat,
    BitVec.toNat_ofNat]
  exact Nat.mod_mod _ _

theorem asWord_uint (bits : Nat) :
    AsWord (.uint bits) (fun word => .uint (Word.ofBytes word) bits)
      fun word => (Word.ofBytes word).fitsUnsigned bits where
  check region base := ⟨.unsignedRange base bits, by rw [checkValue]⟩
  read region pos depth := by
    rw [readValue]
    cases readWord region pos <;> rfl

theorem asWord_int (bits : Nat) :
    AsWord (.int bits) (fun word => .int (Word.ofBytes word) bits)
      fun word => signExtended word bits where
  check region base := ⟨.signedRange base bits, by rw [checkValue]⟩
  read region pos depth := by
    rw [readValue]
    cases readWord region pos <;> rfl

theorem asWord_bool :
    AsWord .bool (fun word => .bool (natOfBytes word != 0)) fun word => natOfBytes word ≤ 1 where
  check region base := ⟨.badBool base, by rw [checkValue]⟩
  read region pos depth := by
    rw [readValue]
    cases readWord region pos <;> rfl

theorem asWord_address :
    AsWord .address (fun word => .address (Address.ofBytes (word.drop 12)))
      fun word => allZero (word.take 12) where
  check region base := ⟨.addressPadding base, by rw [checkValue]⟩
  read region pos depth := by
    rw [readValue]
    cases readWord region pos <;> rfl

theorem asWord_fixedBytes (size : Nat) :
    AsWord (.fixedBytes size) (fun word => .fixedBytes (Word.ofBytes word) size)
      fun word => allZero (word.drop size) where
  check region base := ⟨.fixedBytesPadding size base, by rw [checkValue]⟩
  read region pos depth := by
    rw [readValue]
    cases readWord region pos <;> rfl

theorem agrees_uint (bits : Nat) : Agrees (.uint bits) (.uint bits) := by
  apply agrees_word (asWord_uint bits) (.uint bits) rfl
  · intro src offset v
    simp only [Layout.decode, bind_eq_ok, Layout.checked_eq_ok, Ty.checkUnsigned,
      Word.ofBytes_toBytes]
    simp
  · intro w hw
    rw [Word.ofBytes_toBytes] at hw ⊢
    rw [Ty.check, Ty.checkUnsigned, if_pos hw]

theorem agrees_int {bits : Nat} (hbits : Ty.hasWidth (.int bits) = true) :
    Agrees (.int bits) (.int bits) := by
  obtain ⟨hdvd, hpos, hle⟩ := of_decide_eq_true hbits
  -- comparing the bytes before the value with its sign is the same as shifting the value
  have hsigned : ∀ w : Word, signExtended w.toBytes bits = w.fitsSigned bits := fun w =>
    signExtended_toBytes w hdvd hpos hle
  apply agrees_word (asWord_int bits) (.int bits) rfl
  · intro src offset v
    simp only [Layout.decode, bind_eq_ok, Layout.checked_eq_ok, Ty.checkSigned,
      Word.ofBytes_toBytes, hsigned]
    simp
  · intro w hw
    rw [hsigned] at hw
    rw [Word.ofBytes_toBytes, Ty.check, Ty.checkSigned, if_pos hw]

theorem agrees_bool : Agrees .bool .bool := by
  apply agrees_word asWord_bool .bool rfl
  · intro src offset v
    simp only [Layout.decode, bind_eq_ok, ite_throw_eq_ok, decide_eq_true_eq,
      Word.natOfBytes_toBytes]
    refine exists_congr fun w => and_congr_right fun _ => and_congr_right fun hw => ?_
    rw [Word.bit_eq hw]
    exact eq_comm
  · intro w hw
    rw [Ty.check]

theorem agrees_address : Agrees .address .address := by
  apply agrees_word asWord_address .address rfl
  · intro src offset v
    simp only [Layout.decode, bind_eq_ok, ite_throw_eq_ok, allZero_take_toBytes,
      ofBytes_drop_toBytes]
    exact exists_congr fun w => and_congr_right fun _ => and_congr_right fun _ => eq_comm
  · intro w hw
    rw [Ty.check]

theorem agrees_fixedBytes (size : Nat) : Agrees (.fixedBytes size) (.fixedBytes size) := by
  apply agrees_word (asWord_fixedBytes size) (.fixedBytes size) rfl
  · intro src offset v
    simp only [Layout.decode, bind_eq_ok, ite_throw_eq_ok, Word.ofBytes_toBytes, allZero]
    exact exists_congr fun w => and_congr_right fun _ => and_congr_right fun _ => eq_comm
  · intro w hw
    rw [allZero] at hw
    rw [Word.ofBytes_toBytes, Ty.check, if_pos ⟨rfl, hw⟩]

/-! ## All types -/

theorem headSize_tuple (hstatic : (AbiType.tuple types).isDynamic = false)
    (h : List.Forall₂ (fun t a => a.headSize = t.room) members types) :
    (AbiType.tuple types).headSize = Ty.membersRoom members := by
  rw [AbiType.headSize_of_static hstatic, AbiType.staticSize,
    ← AbiType.sum_headSize_of_static hstatic, sum_headSize_eq_membersRoom h]

theorem agrees_tuple (h : List.Forall₂ Agrees members types) (hne : members ≠ [])
    (ht : t.HasCallType (.tuple types)) (hroom : t.room = Ty.membersRoom members)
    (hlimit : t.room ≤ Size.limit) (hlevels : t.levels = Ty.membersLevels members + 1)
    (hdecode : ∀ src offset, Layout.decode src t offset =
      (Layout.decodeMembers src members offset).map .tuple)
    (hlegal : ∀ items, items.length = members.length →
      t.check (.tuple items) = Ty.checkMembers members items) : Agrees t (.tuple types) := by
  have hstatic : (AbiType.tuple types).isDynamic = false :=
    AbiType.anyDynamic_eq_false.2 (forall_right_of_forall₂ h fun _ _ _ ha => ha.static)
  have hindirect : AbiType.anyIndirect types = (AbiType.tuple types).isDynamic := ht.isIndirect_eq
  have hsizes : List.Forall₂ (fun t a => a.headSize = t.room) members types :=
    h.imp fun _ _ ha => ha.size
  apply agrees_sequence .tuple h hne ht hstatic _ _ hroom hlevels (fun _ _ => rfl) _ hdecode hlegal
  · refine AbiType.measured_tuple (forall_right_of_forall₂ h fun _ _ _ ha => ha.measured) ?_
    rw [sum_headSize_eq_membersRoom hsizes]
    omega
  · rw [headSize_tuple hstatic hsizes, hroom]
  · intro region pos depth
    rw [readValue, hindirect]
    cases readSequence (AbiType.tuple types).isDynamic _ region pos depth <;> rfl

theorem headSize_fixedArray {n : Nat} (hstatic : a.isDynamic = false) :
    (AbiType.fixedArray a n).headSize = Size.mul n a.headSize := by
  have harray : (AbiType.fixedArray a n).isDynamic = false := hstatic
  rw [AbiType.headSize_of_static harray, AbiType.headSize_of_static hstatic, AbiType.staticSize]

theorem agrees_array {elem : Ty} {n : Nat} (hn : n ≠ 0) (h : Agrees elem a)
    (hlimit : n * elem.room ≤ Size.limit) : Agrees (.array elem n) (.fixedArray a n) := by
  have htype := Ty.HasCallType.array hn h.callType
  have hindirect : (n != 0 && a.isIndirect) = (AbiType.fixedArray a n).isDynamic :=
    htype.isIndirect_eq
  have helems := forall₂_copies h n
  have hroom : (Ty.array elem n).room = Ty.membersRoom (List.replicate n elem) := by
    rw [Ty.room, Ty.membersRoom_replicate]
  have hne : List.replicate n elem ≠ [] := by simpa using hn
  apply agrees_sequence .fixedArray helems hne htype h.static
    (AbiType.measured_fixedArray.2 h.measured) _ hroom _ (checkValue_fixedArray a n)
  · intro region pos depth
    rw [readValue, hindirect]
    simp only [readMembers_replicate]
    cases readSequence (AbiType.fixedArray a n).isDynamic _ region pos depth <;> rfl
  · intro src offset
    rw [Layout.decode, Layout.decodeMembers_replicate]
    cases Layout.decodeCopies (Layout.decode src elem) elem.layoutSize n offset <;> rfl
  · intro items hlen
    rw [List.length_replicate] at hlen
    rw [Ty.check, if_pos hlen, Ty.checkEach_eq, hlen]
  · rw [headSize_fixedArray h.static, h.size, Size.mul_eq_of_le hlimit, Ty.room]
  · rw [Ty.levels, Ty.membersLevels_replicate hn]

theorem agrees_members (hlen : members.length = types.length)
    (h : ∀ t a, (t, a) ∈ members.zip types → t.inPlace = true → t.wellSized = true →
      t.room ≤ Size.limit → Agrees t a)
    (hplaces : ∀ t ∈ members, t.inPlace = true) (hsizes : ∀ t ∈ members, t.wellSized = true)
    (hlimit : Ty.membersRoom members ≤ Size.limit) : List.Forall₂ Agrees members types := by
  refine forall₂_of_zip hlen fun t a hta => ?_
  have ht := (List.of_mem_zip hta).1
  have hle := Ty.room_le_membersRoom ht
  exact h t a hta (hplaces t ht) (hsizes t ht) (by omega)

theorem agrees (h : t.HasCallType a) (hplace : t.inPlace = true) (hsized : t.wellSized = true)
    (hlimit : t.room ≤ Size.limit) : Agrees t a := by
  induction h with
  | uint bits => exact agrees_uint bits
  | int bits => exact agrees_int hsized
  | bool => exact agrees_bool
  | address => exact agrees_address
  | fixedBytes size => exact agrees_fixedBytes size
  | bytes bound | string bound => simp [Ty.inPlace, Ty.everywhere, Ty.isFixed] at hplace
  | dynArray bound _ _ => simp [Ty.inPlace, Ty.everywhere, Ty.isFixed] at hplace
  | @array elem a n hn _ ih =>
    simp only [Ty.inPlace, Ty.wellSized, Ty.everywhere, Bool.and_eq_true] at hplace hsized
    rw [Ty.room] at hlimit
    have helem : elem.room ≤ n * elem.room := Nat.le_mul_of_pos_left _ (Nat.pos_of_ne_zero hn)
    exact agrees_array hn (ih hplace.2 hsized.2 (by omega)) hlimit
  | @tuple members types hne hlen hmembers ih =>
    have hroom : (Ty.tuple members).room = Ty.membersRoom members := by rw [Ty.room]
    have hall : List.Forall₂ Agrees members types := agrees_members hlen ih
      (Ty.everywhere_tuple hplace).2 (Ty.everywhere_tuple hsized).2 (by omega)
    have hne' : members ≠ [] := by
      rintro rfl
      exact hne (List.length_eq_zero_iff.1 hlen.symm)
    apply agrees_tuple hall hne' (.tuple hne hlen hmembers) hroom hlimit (by rw [Ty.levels])
    · intro src offset
      rw [Layout.decode]
      cases Layout.decodeMembers src members offset <;> rfl
    · intro items hcount
      rw [Ty.check, if_pos hcount.symm]
  | @struct fields types name hne hlen hmembers ih =>
    have hroom : (Ty.struct name fields).room = Ty.membersRoom (fields.map Prod.snd) := by
      rw [Ty.room, Ty.fieldsRoom_eq]
    have hall : List.Forall₂ Agrees (fields.map Prod.snd) types := agrees_members hlen ih
      (Ty.everywhere_struct hplace).2 (Ty.everywhere_struct hsized).2 (by omega)
    have hne' : fields.map Prod.snd ≠ [] := by
      intro hnil
      rw [hnil] at hlen
      exact hne (List.length_eq_zero_iff.1 hlen.symm)
    apply agrees_tuple hall hne' (.struct name hne hlen hmembers) hroom hlimit
      (by rw [Ty.levels, Ty.fieldsLevels_eq])
    · intro src offset
      rw [Layout.decode, Layout.decodeFields_eq]
      cases Layout.decodeMembers src (fields.map Prod.snd) offset <;> rfl
    · intro items hcount
      rw [List.length_map] at hcount
      rw [Ty.check, if_pos hcount.symm, Ty.checkFields_eq]

/-! ## Whole types -/

theorem mappingFree_of_inPlace (h : t.inPlace = true) : t.mappingFree = true := by
  refine Ty.everywhere_mono (fun t ht => ?_) h
  cases t <;> simp_all [Ty.isFixed, Ty.isMapping]

theorem checkResults_singleton :
    checkResults 0 [t] [v] = .ok () ↔ t.check v = .ok () := by
  rw [checkResults]
  cases t.check v <;> simp [checkResults]

theorem read_singleton_eq_ok (ht : t.HasCallType a) :
    read [a] data = .ok [v] ↔ ∃ last, readValue a data 0 0 = .ok (v, last) := by
  have hempty : AbiType.allEmpty [a] = false := by
    rw [AbiType.allEmpty, ht.isEmpty_eq, Bool.false_and]
  rw [read, hempty, if_neg (by simp), map_eq_ok]
  simp only [readMembers, bind_eq_ok, pure_eq_ok, Prod.exists, Except.ok.injEq, Prod.mk.injEq]
  constructor
  · rintro ⟨vs, last, ⟨u, next, hu, rest, last', ⟨rfl, rfl⟩, rfl, rfl⟩, h⟩
    rw [List.cons.injEq] at h
    exact ⟨next, h.1 ▸ hu⟩
  · rintro ⟨last, hv⟩
    exact ⟨[v], last, ⟨v, last, hv, [], last, ⟨rfl, rfl⟩, rfl, rfl⟩, rfl⟩

theorem check_singleton_eq_ok (h : Agrees t a) (hroom : t.room ≤ Size.limit) :
    check [a] data = .ok () ↔ ∃ v, Layout.decode (.ofBytes data) t 0 = .ok v := by
  have hsum : Ty.membersRoom [t] = t.room := by rw [Ty.membersRoom, Ty.membersRoom, Nat.add_zero]
  have hhead : AbiType.headsSize [a] = t.room := by
    rw [headsSize_eq_membersRoom (.cons h.size .nil) (by omega), hsum]
  have hplaced : checkPlaced a t.room (checkValue a) data 0 t.room 0 = .ok () ↔
      ∃ v, Layout.decode (.ofBytes data) t 0 = .ok v := by
    rw [checkPlaced, h.static]
    exact h.check_iff data 0 0 (by omega)
  rw [check, checkValue_tuple_eq_ok, hhead, checkMembers_cons_eq_ok, h.size, hplaced]
  constructor
  · rintro ⟨-, ⟨-, hv⟩, -⟩
    exact hv
  · rintro ⟨v, hv⟩
    have hlen := (h.within (by omega) hv).1
    exact ⟨by omega, ⟨h.measured, v, hv⟩, rfl⟩

/-- What is made of words, arrays, tuples and structs is decoded alike from an encoding and from a
native layout, whatever the bytes are.  Only the reader of encodings does not follow more than 16
levels of nesting. -/
theorem decode_iff_layout (hplace : t.inPlace = true) (hsized : t.wellSized = true)
    (hsolid : t.solid = true) (hroom : t.room ≤ Size.limit) (data : List UInt8) (v : Value) :
    decode [t] data = .ok [v] ↔
      Layout.decode (.ofBytes data) t 0 = .ok v ∧ t.levels ≤ depthLimit := by
  obtain ⟨a, ha⟩ := Ty.exists_hasCallType (mappingFree_of_inPlace hplace) hsolid
  have hagrees := agrees ha hplace hsized hroom
  have habi : abiTypes [t] = .ok [a] := abiTypes_of_callTypes (.cons ha .nil)
  -- what the layout decoder makes of the data is what the reader reads, or the reader gives up
  have hread : ∀ u, Layout.decode (.ofBytes data) t 0 = .ok u → readValue a (data.drop 0) 0 0 =
      if 0 + t.levels ≤ depthLimit then .ok (u, 0 + t.room) else .error .tooDeep := fun u hu =>
    hagrees.read (by omega) (by omega) hu
  rw [List.drop_zero] at hread
  rw [decode_eq_ok]
  constructor
  · rintro ⟨abi, h, hcheck, hvalue, -⟩
    obtain rfl : abi = [a] := by
      rw [habi] at h
      exact (Except.ok.inj h).symm
    obtain ⟨u, hu⟩ := (check_singleton_eq_ok hagrees hroom).1 hcheck
    obtain ⟨last, hv⟩ := (read_singleton_eq_ok ha).1 hvalue
    rw [hread u hu] at hv
    split at hv
    · simp only [Except.ok.injEq, Prod.mk.injEq] at hv
      exact ⟨hv.1 ▸ hu, by omega⟩
    · simp at hv
  · rintro ⟨hv, hlevels⟩
    have hvalue := hread v hv
    rw [if_pos (by omega)] at hvalue
    refine ⟨[a], habi, (check_singleton_eq_ok hagrees hroom).2 ⟨v, hv⟩,
      (read_singleton_eq_ok ha).2 ⟨_, hvalue⟩, ?_⟩
    exact checkResults_singleton.2 (hagrees.within (by omega) hv).2

def flags : Ty := .tuple [.int 16, .array .bool 2]

theorem decode_flags :
    decode [flags] (bytesOfNat 32 (2 ^ 256 - 3) ++ bytesOfNat 32 1 ++ bytesOfNat 32 0) =
      .ok [.tuple [.int (Word.ofInt (-3)) 16, .fixedArray [.bool true, .bool false]]] :=
  (decode_iff_layout (by decide) (by decide) (by decide) (by decide) _ _).2
    ⟨by decide +kernel, by decide⟩

/-- `n` arrays of one element around a number, one in another. -/
def boxedType : Nat → Ty
  | 0 => .uint 8
  | n + 1 => .array (boxedType n) 1

def boxed : Nat → Value
  | 0 => .uint 7 8
  | n + 1 => .fixedArray [boxed n]

/-- What nests too deep for the reader of encodings is decoded from its native layout. -/
theorem layout_deep :
    (boxedType 18).inPlace = true ∧ (boxedType 18).wellSized = true ∧
      (boxedType 18).solid = true ∧ (boxedType 18).room ≤ Size.limit ∧
      Layout.decode (.ofBytes (bytesOfNat 32 7)) (boxedType 18) 0 = .ok (boxed 18) ∧
      decode [boxedType 18] (bytesOfNat 32 7) ≠ .ok [boxed 18] := by
  decide +kernel

end Abi

end EvmInspect
