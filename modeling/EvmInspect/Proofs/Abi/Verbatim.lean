import EvmInspect.Proofs.Abi.InPlace
import EvmInspect.Proofs.Abi.Signature
/-!
# Values that are encoded as they stood

Where everything stands in place, each value is encoded again as the bytes from which it was read:
the strict check lets no bit pass that the value does not keep.  So what was decoded is encoded as
the bytes that it was decoded from.  Only when all types together take no bytes are the values lost
and cannot be encoded.
-/

namespace EvmInspect

namespace Value

theorem assemble_parts_of_static {items : List Value} (h : anyDynamic items = false) :
    assemble (parts items) = items.flatMap encode := by
  have hlayOut (offset : Nat) : layOut offset (parts items) = (items.flatMap encode, []) := by
    induction items with
    | nil => rfl
    | cons v vs ih =>
      rw [anyDynamic, Bool.or_eq_false_iff] at h
      rw [parts, h.1, layOut_static, ih h.2, List.flatMap_cons]
  rw [assemble_eq, hlayOut, List.append_nil]

end Value

namespace Abi

variable {t : Ty} {a : AbiType} {members : List Ty} {types : List AbiType}

/-! ## Types that stand in place -/

/-- Neither the check nor the reader looks for values of the type behind an offset, and the type is
empty just if it keeps no room. -/
structure Direct (t : Ty) (a : AbiType) : Prop where
  static : a.isDynamic = false
  direct : a.isIndirect = false
  empty : a.isEmpty = true ↔ t.room = 0

theorem anyIndirect_eq_false (h : ∀ a ∈ types, a.isIndirect = false) :
    AbiType.anyIndirect types = false := by
  induction types with
  | nil => rfl
  | cons a as ih =>
    rw [List.forall_mem_cons] at h
    rw [AbiType.anyIndirect, h.1, ih h.2, Bool.or_self]

theorem allEmpty_iff_of_direct (h : List.Forall₂ Direct members types) :
    AbiType.allEmpty types = true ↔ Ty.membersRoom members = 0 := by
  induction h with
  | nil => simp [AbiType.allEmpty, Ty.membersRoom]
  | cons hhead _ ih =>
    rw [AbiType.allEmpty, Bool.and_eq_true, hhead.empty, ih, Ty.membersRoom]
    omega

theorem direct_tuple (h : List.Forall₂ Direct members types)
    (hroom : t.room = Ty.membersRoom members) : Direct t (.tuple types) where
  static := AbiType.anyDynamic_eq_false.2 (forall_right_of_forall₂ h fun _ _ _ ha => ha.static)
  direct := anyIndirect_eq_false (forall_right_of_forall₂ h fun _ _ _ ha => ha.direct)
  empty := by rw [AbiType.isEmpty, hroom, allEmpty_iff_of_direct h]

theorem members_of_inPlace {R : Ty → AbiType → Prop} (hplaces : ∀ t ∈ members, t.inPlace = true)
    (habi : List.Forall₂ (fun t a => t.abiType? = some a) members types)
    (h : ∀ t ∈ members, ∀ a, t.inPlace = true → t.abiType? = some a → R t a) :
    List.Forall₂ R members types :=
  forall₂_of_zip habi.length_eq fun t a hmem =>
    have ht := (List.of_mem_zip hmem).1
    h t ht a (hplaces t ht) ((List.forall₂_iff_zip.1 habi).2 hmem)

theorem direct_of_inPlace (hplace : t.inPlace = true) (habi : t.abiType? = some a) :
    Direct t a := by
  induction t using Ty.memberInduction generalizing a with
  | uint | int | bool | address | fixedBytes =>
    simp only [Ty.abiType?, Option.some.injEq] at habi
    subst habi
    exact ⟨rfl, rfl, by simp [AbiType.isEmpty, Ty.room]⟩
  | bytes | string | dynArray | mapping => simp [Ty.inPlace, Ty.everywhere, Ty.isFixed] at hplace
  | array elem n ih =>
    simp only [Ty.inPlace, Ty.everywhere, Bool.and_eq_true] at hplace
    simp only [Ty.abiType?, Option.map_eq_some_iff] at habi
    obtain ⟨e, he, rfl⟩ := habi
    have helem := ih hplace.2 he
    refine ⟨helem.static, ?_, ?_⟩
    · rw [AbiType.isIndirect, helem.direct, Bool.and_false]
    · rw [AbiType.isEmpty, Bool.or_eq_true, beq_iff_eq, helem.empty, Ty.room, Nat.mul_eq_zero]
  | tuple members ih =>
    simp only [Ty.abiType?, Option.map_eq_some_iff] at habi
    obtain ⟨types, htypes, rfl⟩ := habi
    refine direct_tuple (members_of_inPlace (Ty.everywhere_tuple hplace).2
      (Ty.abiTypes?_eq_some htypes) fun t ht a hp ha => ih t ht hp ha) ?_
    rw [Ty.room]
  | struct name fields ih =>
    simp only [Ty.abiType?, Option.map_eq_some_iff] at habi
    obtain ⟨types, htypes, rfl⟩ := habi
    rw [Ty.fieldAbiTypes?_eq] at htypes
    refine direct_tuple (members_of_inPlace (Ty.everywhere_struct hplace).2
      (Ty.abiTypes?_eq_some htypes) fun t ht a hp ha => ih t ht hp ha) ?_
    rw [Ty.room, Ty.fieldsRoom_eq]

/-! ## Values that are copied -/

/-- The value has the type and is encoded in place as these bytes. -/
structure Copied (a : AbiType) (bytes : List UInt8) (v : Value) : Prop where
  ofType : a.matchesValue v = true
  static : v.isDynamic = false
  encode : v.encode = bytes

/-- What is read of the type from bytes that pass the check is encoded as these bytes. -/
structure Verbatim (t : Ty) (a : AbiType) : Prop where
  static : a.isDynamic = false
  size : a.headSize = t.room
  copied {region : List UInt8} {pos base depth next : Nat} {v : Value}
    (hcheck : checkValue a ((region.drop pos).take t.room) base = .ok ())
    (hread : readValue a region pos depth = .ok (v, next)) :
    pos + t.room ≤ region.length ∧ next = pos + t.room ∧
      Copied a ((region.drop pos).take t.room) v

/-! ### Words -/

theorem verbatim_word {value : List UInt8 → Value} {condition : List UInt8 → Bool}
    (h : AsWord a value condition) (hword : t.isWord = true) (hstatic : a.isDynamic = false)
    (hsize : a.headSize = 32)
    (hvalue : ∀ word, a.matchesValue (value word) = true ∧ (value word).isDynamic = false)
    (hencode : ∀ w : Word, condition w.toBytes = true → (value w.toBytes).encode = w.toBytes) :
    Verbatim t a := by
  have hroom := room_of_isWord hword
  refine ⟨hstatic, by rw [hsize, hroom], ?_⟩
  intro region pos base depth next v hcheck hread
  rw [hroom] at hcheck ⊢
  obtain ⟨fault, hfault⟩ := h.check ((region.drop pos).take 32) base
  rw [hfault] at hcheck
  rw [h.read, map_eq_ok] at hread
  obtain ⟨word, hword, heq⟩ := hread
  cases heq
  obtain ⟨hlen, hword⟩ := ite_error_eq_ok.1 hword
  cases hword
  obtain ⟨w, hw⟩ : ∃ w : Word, w.toBytes = (region.drop pos).take 32 :=
    ⟨_, Word.toBytes_ofBytes hlen⟩
  have hcondition := of_wordCheck hlen hcheck
  rw [← hw] at hcondition ⊢
  exact ⟨length_word.1 hlen, rfl, (hvalue _).1, (hvalue _).2, hencode w hcondition⟩

theorem verbatim_uint (bits : Nat) : Verbatim (.uint bits) (.uint bits) := by
  apply verbatim_word (asWord_uint bits) rfl rfl rfl
  · intro word
    exact ⟨by simp [AbiType.matchesValue], rfl⟩
  · intro w _
    rw [Word.ofBytes_toBytes, Value.encode]

theorem verbatim_int (bits : Nat) : Verbatim (.int bits) (.int bits) := by
  apply verbatim_word (asWord_int bits) rfl rfl rfl
  · intro word
    exact ⟨by simp [AbiType.matchesValue], rfl⟩
  · intro w _
    rw [Word.ofBytes_toBytes, Value.encode]

theorem verbatim_fixedBytes (size : Nat) : Verbatim (.fixedBytes size) (.fixedBytes size) := by
  apply verbatim_word (asWord_fixedBytes size) rfl rfl rfl
  · intro word
    exact ⟨by simp [AbiType.matchesValue], rfl⟩
  · intro w _
    rw [Word.ofBytes_toBytes, Value.encode]

theorem verbatim_bool : Verbatim .bool .bool := by
  apply verbatim_word asWord_bool rfl rfl rfl
  · intro word
    exact ⟨rfl, rfl⟩
  · intro w hw
    rw [decide_eq_true_eq, Word.natOfBytes_toBytes] at hw
    rw [Word.natOfBytes_toBytes, ← Word.bit_eq hw, Value.encode, Word.toNat_bit hw]
    rfl

theorem verbatim_address : Verbatim .address .address := by
  apply verbatim_word asWord_address rfl rfl rfl
  · intro word
    exact ⟨rfl, rfl⟩
  · intro w hw
    rw [allZero_take_toBytes] at hw
    rw [ofBytes_drop_toBytes, Value.encode, Address.toWord_ofNat hw]

/-! ### Sequences -/

theorem copied_members (h : List.Forall₂ Verbatim members types) {body : List UInt8}
    {n base head pos depth last : Nat} {items : List Value} (hpos : pos ≤ body.length)
    (hend : pos + Ty.membersRoom members ≤ n)
    (hcheck : checkMembers types (body.take n) base head pos = .ok ())
    (hread : readMembers types body pos depth = .ok (items, last)) :
    pos + Ty.membersRoom members ≤ body.length ∧ last = pos + Ty.membersRoom members ∧
      List.Forall₂ (fun a v => a.matchesValue v = true) types items ∧
      Value.anyDynamic items = false ∧
      items.flatMap Value.encode = (body.drop pos).take (Ty.membersRoom members) := by
  induction h generalizing pos items last with
  | nil =>
    cases hread
    exact ⟨hpos, rfl, .nil, rfl, List.take_zero.symm⟩
  | @cons t a ts as hhead _ ih =>
    rw [Ty.membersRoom] at hend ⊢
    obtain ⟨⟨-, hhere⟩, hthere⟩ := checkMembers_cons_eq_ok.1 hcheck
    have hsub := @take_drop_take body 0 pos n t.room (by omega)
    rw [List.drop_zero, Nat.zero_add] at hsub
    rw [checkPlaced, hhead.static, if_neg Bool.false_ne_true, hhead.size, hsub] at hhere
    rw [hhead.size] at hthere
    rw [readMembers] at hread
    obtain ⟨⟨v, next⟩, hv, hread⟩ := ok_of_bind hread
    obtain ⟨⟨vs, last'⟩, hvs, hread⟩ := ok_of_bind hread
    cases hread
    obtain ⟨hlen, rfl, hcopied⟩ := hhead.copied hhere hv
    obtain ⟨hlens, hlast, hmatch, hstatic, hencode⟩ := ih hlen (by omega) hthere hvs
    refine ⟨by omega, by omega, .cons hcopied.ofType hmatch, ?_, ?_⟩
    · rw [Value.anyDynamic, hcopied.static, hstatic, Bool.or_self]
    · rw [List.flatMap_cons, hcopied.encode, hencode, List.take_add, List.drop_drop]

theorem readSequence_direct {read : List UInt8 → Nat → Except ReadFault (List Value × Nat)}
    {region : List UInt8} {pos depth next : Nat} {items : List Value}
    (h : readSequence false read region pos depth = .ok (items, next)) :
    pos ≤ region.length ∧ ∃ level size,
      read (region.drop pos) level = .ok (items, size) ∧ next = pos + size := by
  rw [readSequence_eq] at h
  obtain ⟨inside, hinside, hread⟩ := ok_of_bind h
  obtain ⟨level, -, hinner⟩ := ok_of_bind hinside
  obtain ⟨hpos, rfl⟩ := ite_throw_eq_ok.1 hinner
  obtain ⟨⟨items', size⟩, hitems, heq⟩ := map_eq_ok.1 hread
  cases heq
  exact ⟨hpos, level, size, hitems, rfl⟩

theorem verbatim_sequence (value : List Value → Value) (h : List.Forall₂ Verbatim members types)
    (hdirect : Direct t a) (hsize : a.headSize = t.room)
    (hroom : t.room = Ty.membersRoom members)
    (hsame : ∀ region base, checkValue a region base = checkValue (.tuple types) region base)
    (hread : ∀ region pos depth, readValue a region pos depth =
      (readSequence false (readMembers types · 0 ·) region pos depth).map fun result =>
        (value result.1, result.2))
    (hmatch : ∀ items, List.Forall₂ (fun a v => a.matchesValue v = true) types items →
      a.matchesValue (value items) = true)
    (hvalue : ∀ items, (value items).isDynamic = Value.anyDynamic items ∧
      (value items).encode = Value.assemble (Value.parts items)) : Verbatim t a := by
  refine ⟨hdirect.static, hsize, ?_⟩
  intro region pos base depth next v hcheck hvalues
  rw [hsame, checkValue_tuple_eq_ok] at hcheck
  obtain ⟨-, hmembers⟩ := hcheck
  rw [hread, map_eq_ok] at hvalues
  obtain ⟨⟨items, last⟩, hsequence, heq⟩ := hvalues
  cases heq
  obtain ⟨hpos, level, size, hitems, rfl⟩ := readSequence_direct hsequence
  obtain ⟨hlen, rfl, hmatches, hstatic, hencode⟩ :=
    copied_members h (Nat.zero_le _) (by omega) hmembers hitems
  rw [List.length_drop] at hlen
  rw [hroom]
  refine ⟨by omega, by rw [Nat.zero_add], hmatch _ hmatches, ?_, ?_⟩
  · rw [(hvalue _).1, hstatic]
  · rw [(hvalue _).2, Value.assemble_parts_of_static hstatic, hencode, List.drop_zero]

theorem verbatim_tuple (h : List.Forall₂ Verbatim members types)
    (hdirect : Direct t (.tuple types)) (hroom : t.room = Ty.membersRoom members) :
    Verbatim t (.tuple types) := by
  have hindirect : AbiType.anyIndirect types = false := hdirect.direct
  apply verbatim_sequence .tuple h hdirect _ hroom fun _ _ => rfl
  · intro region pos depth
    rw [readValue, hindirect]
    cases readSequence false _ region pos depth <;> rfl
  · intro items hmatch
    rw [AbiType.matchesValue]
    exact Ty.allMatch_of_forall₂ hmatch
  · intro items
    exact ⟨rfl, rfl⟩
  · rw [headSize_tuple hdirect.static (h.imp fun _ _ ha => ha.size), hroom]

theorem verbatim_array {elem : Ty} {n : Nat} (h : n ≠ 0 → Verbatim elem a)
    (hdirect : Direct (.array elem n) (.fixedArray a n)) (helem : a.isIndirect = false)
    (hlimit : n * elem.room ≤ Size.limit) : Verbatim (.array elem n) (.fixedArray a n) := by
  have helems : List.Forall₂ Verbatim (List.replicate n elem) (List.replicate n a) := by
    by_cases hn : n = 0
    · subst hn
      exact .nil
    · exact forall₂_copies (h hn) n
  apply verbatim_sequence .fixedArray helems hdirect _ _ (checkValue_fixedArray a n)
  · intro region pos depth
    rw [readValue, helem, Bool.and_false]
    simp only [readMembers_replicate]
    cases readSequence false _ region pos depth <;> rfl
  · intro items hmatch
    have hlen := hmatch.length_eq
    rw [List.length_replicate] at hlen
    rw [AbiType.matchesValue, ← hlen, beq_self_eq_true, Bool.true_and, List.all_eq_true]
    exact forall_of_copies hmatch
  · intro items
    exact ⟨rfl, rfl⟩
  · have hstatic : a.isDynamic = false := hdirect.static
    rw [headSize_fixedArray hstatic, Ty.room]
    by_cases hn : n = 0
    · rw [hn, Nat.zero_mul, Size.mul, Nat.zero_mul, Nat.zero_min]
    · rw [(h hn).size, Size.mul_eq_of_le hlimit]
  · rw [Ty.room, Ty.membersRoom_replicate]

/-! ### All types -/

theorem verbatim_members (hplaces : ∀ t ∈ members, t.inPlace = true)
    (habi : List.Forall₂ (fun t a => t.abiType? = some a) members types)
    (hlimit : Ty.membersRoom members ≤ Size.limit)
    (h : ∀ t ∈ members, ∀ a, t.inPlace = true → t.abiType? = some a → t.room ≤ Size.limit →
      Verbatim t a) : List.Forall₂ Verbatim members types := by
  refine members_of_inPlace hplaces habi fun t ht a hp ha => ?_
  have hle := Ty.room_le_membersRoom ht
  exact h t ht a hp ha (by omega)

theorem verbatim (hplace : t.inPlace = true) (habi : t.abiType? = some a)
    (hlimit : t.room ≤ Size.limit) : Verbatim t a := by
  have hdirect := direct_of_inPlace hplace habi
  induction t using Ty.memberInduction generalizing a with
  | uint bits =>
    cases habi
    exact verbatim_uint bits
  | int bits =>
    cases habi
    exact verbatim_int bits
  | bool =>
    cases habi
    exact verbatim_bool
  | address =>
    cases habi
    exact verbatim_address
  | fixedBytes size =>
    cases habi
    exact verbatim_fixedBytes size
  | bytes | string | dynArray | mapping => simp [Ty.inPlace, Ty.everywhere, Ty.isFixed] at hplace
  | array elem n ih =>
    simp only [Ty.inPlace, Ty.everywhere, Bool.and_eq_true] at hplace
    simp only [Ty.abiType?, Option.map_eq_some_iff] at habi
    obtain ⟨e, he, rfl⟩ := habi
    have helem := direct_of_inPlace hplace.2 he
    rw [Ty.room] at hlimit
    refine verbatim_array (fun hn => ?_) hdirect helem.direct hlimit
    have hle : elem.room ≤ n * elem.room := Nat.le_mul_of_pos_left _ (Nat.pos_of_ne_zero hn)
    exact ih hplace.2 he (by omega) helem
  | tuple members ih =>
    simp only [Ty.abiType?, Option.map_eq_some_iff] at habi
    obtain ⟨types, htypes, rfl⟩ := habi
    have hroom : (Ty.tuple members).room = Ty.membersRoom members := by rw [Ty.room]
    refine verbatim_tuple (verbatim_members (Ty.everywhere_tuple hplace).2
      (Ty.abiTypes?_eq_some htypes) (by omega) fun t ht a hp ha hl => ?_) hdirect hroom
    exact ih t ht hp ha hl (direct_of_inPlace hp ha)
  | struct name fields ih =>
    simp only [Ty.abiType?, Option.map_eq_some_iff] at habi
    obtain ⟨types, htypes, rfl⟩ := habi
    rw [Ty.fieldAbiTypes?_eq] at htypes
    have hroom : (Ty.struct name fields).room = Ty.membersRoom (fields.map Prod.snd) := by
      rw [Ty.room, Ty.fieldsRoom_eq]
    refine verbatim_tuple (verbatim_members (Ty.everywhere_struct hplace).2
      (Ty.abiTypes?_eq_some htypes) (by omega) fun t ht a hp ha hl => ?_) hdirect hroom
    exact ih t ht hp ha hl (direct_of_inPlace hp ha)

/-! ## Parameters -/

variable {abi : List AbiType} {data : List UInt8} {values : List Value}

theorem copied_of_read {types : List Ty} (h : List.Forall₂ Verbatim types abi)
    (hfits : Ty.membersRoom types ≤ Size.limit) (hempty : AbiType.allEmpty abi = false)
    (hcheck : check abi data = .ok ()) (hread : read abi data = .ok values) :
    List.Forall₂ (fun a v => a.matchesValue v = true) abi values ∧
      Value.encodeAll values = data.take (Ty.membersRoom types) := by
  have hheads := headsSize_eq_membersRoom (h.imp fun _ _ ha => ha.size) hfits
  rw [check, checkValue_tuple_eq_ok, hheads] at hcheck
  obtain ⟨hhead, hmembers⟩ := hcheck
  rw [read, hempty, if_neg Bool.false_ne_true, map_eq_ok] at hread
  obtain ⟨⟨items, last⟩, hitems, rfl⟩ := hread
  rw [← List.take_length (l := data)] at hmembers
  obtain ⟨-, -, hmatch, hstatic, hencode⟩ :=
    copied_members h (Nat.zero_le _) (by omega) hmembers hitems
  refine ⟨hmatch, ?_⟩
  rw [Value.encodeAll, Value.assemble_parts_of_static hstatic, hencode, List.drop_zero]

/-- What stands in place is decoded without a loss: it is encoded again as the heads of the data.
Only when there are types and none of them takes a byte, nothing is decoded, and as many values as
types are missing. -/
theorem encode_of_decode {types : List Ty} (hplace : ∀ t ∈ types, t.inPlace = true)
    (hfits : Ty.membersRoom types ≤ Size.limit) (h : decode types data = .ok values) :
    ∃ abi, abiTypes types = .ok abi ∧ AbiType.headsSize? abi = some (Ty.membersRoom types) ∧
      (types = [] ∨ Ty.membersRoom types ≠ 0 →
        encode types values = .ok (data.take (Ty.membersRoom types))) ∧
      (types ≠ [] → Ty.membersRoom types = 0 → values = [] ∧
        encode types values = .error (.encoding (signatureOf abi) (.arity types.length 0))) := by
  obtain ⟨abi, habi, hcheck, hread, hlegal⟩ := decode_eq_ok.1 h
  have htypes := abiTypes_eq_ok habi
  have hcopied : List.Forall₂ Verbatim types abi :=
    verbatim_members hplace htypes hfits fun _ _ _ hp ha hl => verbatim hp ha hl
  have hdirect : List.Forall₂ Direct types abi :=
    members_of_inPlace hplace htypes fun _ _ _ hp ha => direct_of_inPlace hp ha
  have hempty := allEmpty_iff_of_direct hdirect
  -- nothing is read where nothing takes a byte
  have hnothing (hzero : Ty.membersRoom types = 0) : values = [] := by
    rw [read, hempty.2 hzero] at hread
    exact (Except.ok.inj hread).symm
  have hheads : AbiType.headsSize? abi = some (Ty.membersRoom types) := by
    rw [← headsSize_eq_membersRoom (hcopied.imp fun _ _ ha => ha.size) hfits]
    exact AbiType.headsSize?_eq (measured_of_checkMembers (checkValue_tuple_eq_ok.1 hcheck).2)
  refine ⟨abi, habi, hheads, ?_, ?_⟩
  · rintro (rfl | hne)
    · rw [hnothing rfl]
      rfl
    · have hsome : AbiType.allEmpty abi = false := by
        rw [Bool.eq_false_iff, ne_eq, hempty]
        exact hne
      obtain ⟨hmatch, hencode⟩ := copied_of_read hcopied hfits hsome hcheck hread
      exact encode_eq_ok_iff.2
        ⟨abi, habi, hmatch, checkResults_eq_ok_iff.1 hlegal, hencode.symm⟩
  · intro hne hzero
    have hvalues := hnothing hzero
    subst hvalues
    refine ⟨rfl, ?_⟩
    have hlen : types.length ≠ ([] : List Value).length := by simpa using hne
    simp only [encode, habi, bind, Except.bind, hlen, if_false]
    rfl

def signed : List Ty := [.array (.uint 8) 0, .tuple [.int 16, .array .bool 2]]

/-- The sign bits of the number and the zeros before the truth values are encoded again; the byte
behind them is not. -/
theorem encode_of_decode_signed :
    decode signed (bytesOfNat 32 (2 ^ 256 - 3) ++ bytesOfNat 32 1 ++ bytesOfNat 32 0 ++ [7]) =
        .ok [.fixedArray [], .tuple [.int (Word.ofInt (-3)) 16,
          .fixedArray [.bool true, .bool false]]] ∧
      encode signed [.fixedArray [], .tuple [.int (Word.ofInt (-3)) 16,
          .fixedArray [.bool true, .bool false]]] =
        .ok (bytesOfNat 32 (2 ^ 256 - 3) ++ bytesOfNat 32 1 ++ bytesOfNat 32 0) := by
  have hdecode : decode signed
      (bytesOfNat 32 (2 ^ 256 - 3) ++ bytesOfNat 32 1 ++ bytesOfNat 32 0 ++ [7]) =
      .ok [.fixedArray [], .tuple [.int (Word.ofInt (-3)) 16,
        .fixedArray [.bool true, .bool false]]] := by decide +kernel
  obtain ⟨abi, -, -, hencode, -⟩ := encode_of_decode (by decide) (by decide) hdecode
  refine ⟨hdecode, ?_⟩
  rw [hencode (.inr (by decide))]
  decide +kernel

/-- An array of length 0 is decoded to no value at all, which does not encode again. -/
theorem encode_of_decode_nothing :
    decode [.array (.uint 8) 0] [] = .ok [] ∧
      encode [.array (.uint 8) 0] [] = .error (.encoding "(uint8[0])" (.arity 1 0)) := by
  decide +kernel

end Abi

end EvmInspect
