import EvmInspect.Proofs.Layout.Decode
/-!
# What decoding reads

Decoding a value reads no byte outside the room of its type, whatever lengths it finds there.  Two
sources that give the same in that room therefore decode to the same value or fail alike: storage
and the bytes of its slots, call memory and its image with zeros behind it, and two storages that
differ elsewhere.  Where one of them has no buffer for the words of a range, only that comes
between.
-/

namespace EvmInspect

namespace Ty

theorem dvd_membersRoom {members : List Ty} (h : ∀ t ∈ members, 32 ∣ t.room) :
    32 ∣ membersRoom members := by
  induction members with
  | nil => exact Nat.dvd_zero 32
  | cons t ts ih =>
    rw [List.forall_mem_cons] at h
    exact Nat.dvd_add h.1 (ih h.2)

/-- Types keep whole words. -/
theorem dvd_room (t : Ty) : 32 ∣ t.room := by
  induction t using memberInduction with
  | uint | int | bool | address | fixedBytes | mapping => exact Nat.dvd_refl 32
  | bytes bound | string bound => exact Nat.dvd_add (Nat.dvd_refl 32) (Nat.dvd_mul_left 32 _)
  | array elem n ih => exact Nat.dvd_mul_left_of_dvd ih n
  | dynArray elem bound ih =>
    exact Nat.dvd_add (Nat.dvd_refl 32) (Nat.dvd_mul_left_of_dvd ih bound)
  | tuple members ih => exact dvd_membersRoom ih
  | struct name fields ih =>
    rw [room, fieldsRoom_eq]
    exact dvd_membersRoom ih

end Ty

namespace Layout

variable {src other : Source} {t : Ty} {offset : Nat}

/-! ## Sources that agree -/

/-- What `y` gives, if there is no fault of the kind in its place. -/
def UpTo {α : Type} (kind : Fault → Prop) (x y : Except Fault α) : Prop :=
  x = y ∨ ∃ fault, kind fault ∧ x = .error fault

section

variable {α β : Type} {kind : Fault → Prop} {x y : Except Fault α}

theorem UpTo.refl (x : Except Fault α) : UpTo kind x x := .inl rfl

theorem upTo_false : UpTo (fun _ => False) x y ↔ x = y := by
  simp [UpTo]

theorem UpTo.bind {f g : α → Except Fault β} (h : UpTo kind x y)
    (hfg : ∀ a, y = .ok a → UpTo kind (f a) (g a)) : UpTo kind (x >>= f) (y >>= g) := by
  obtain rfl | ⟨fault, hkind, rfl⟩ := h
  · cases x with
    | error fault => exact .refl _
    | ok a => exact hfg a rfl
  · exact .inr ⟨fault, hkind, rfl⟩

/-- Nothing behind the two makes a difference. -/
theorem UpTo.andThen (h : UpTo kind x y) (f : α → Except Fault β) :
    UpTo kind (x >>= f) (y >>= f) :=
  h.bind fun _ _ => .refl _

end

namespace Source

/-- The sources give the same for every range within `size` bytes from the offset on. -/
def AgreeOn (src other : Source) (offset size : Nat) : Prop :=
  ∀ start n, start + n ≤ size → src (offset + start) n = other (offset + start) n

/-- The source gives the same as the other one there, if it has no fault of the kind. -/
def AgreeUpTo (kind : Fault → Prop) (src other : Source) (offset size : Nat) : Prop :=
  ∀ start n, start + n ≤ size → UpTo kind (src (offset + start) n) (other (offset + start) n)

theorem agreeUpTo_false {size : Nat} :
    src.AgreeUpTo (fun _ => False) other offset size ↔ src.AgreeOn other offset size := by
  simp only [AgreeUpTo, upTo_false, AgreeOn]

variable {kind : Fault → Prop}

theorem AgreeUpTo.mono {size smaller : Nat} (h : src.AgreeUpTo kind other offset size)
    (hle : smaller ≤ size) : src.AgreeUpTo kind other offset smaller :=
  fun start n hn => h start n (by omega)

theorem AgreeUpTo.further {front back distance : Nat}
    (h : src.AgreeUpTo kind other offset (front + back)) (hle : distance ≤ front) :
    src.AgreeUpTo kind other (offset + distance) back := by
  intro start n hn
  rw [Nat.add_assoc]
  exact h (distance + start) n (by omega)

theorem AgreeUpTo.behind {front back : Nat}
    (h : src.AgreeUpTo kind other offset (front + back)) :
    src.AgreeUpTo kind other (offset + front) back :=
  h.further (Nat.le_refl front)

theorem AgreeUpTo.read {size n : Nat} (h : src.AgreeUpTo kind other offset size) (hn : n ≤ size) :
    UpTo kind (src offset n) (other offset n) :=
  h 0 n (by omega)

/-- The source within a window; every range that leaves the window is refused with the fault. -/
def within (src : Source) (offset size : Nat) (fault : Fault) : Source := fun start n =>
  if offset ≤ start ∧ start + n ≤ offset + size then src start n else .error fault

theorem within_agreeOn (src : Source) (offset size : Nat) (fault : Fault) :
    (src.within offset size fault).AgreeOn src offset size := by
  intro start n hn
  rw [within, if_pos (by omega)]

end Source

variable {kind : Fault → Prop}

theorem wordAt_upTo {size : Nat} (h : src.AgreeUpTo kind other offset size) (hsize : 32 ≤ size) :
    UpTo kind (wordAt src offset) (wordAt other offset) := by
  obtain heq | ⟨fault, hkind, heq⟩ := h.read hsize
  · rw [wordAt, wordAt, heq]
    exact .refl _
  · rw [wordAt, heq]
    exact .inr ⟨fault, hkind, rfl⟩

theorem lengthAt_upTo (ty : Ty) (bound : Nat)
    (h : UpTo kind (wordAt src offset) (wordAt other offset)) :
    UpTo kind (lengthAt ty bound src offset) (lengthAt ty bound other offset) :=
  h.andThen _

theorem le_of_lengthAt {ty : Ty} {bound n : Nat} (h : lengthAt ty bound src offset = .ok n) :
    n ≤ bound := by
  unfold lengthAt at h
  obtain ⟨word, -, h⟩ := bind_eq_ok.1 h
  obtain ⟨⟨-, hbound⟩, rfl⟩ := ite_throw_eq_ok.1 h
  exact hbound

/-! ## Decoding -/

/-- Decoding a value of the type from the source gives what the other one gives, up to faults of the
kind, wherever the source does so on its room. -/
def Confined (kind : Fault → Prop) (src other : Source) (t : Ty) : Prop :=
  ∀ {offset : Nat}, src.AgreeUpTo kind other offset t.room →
    UpTo kind (decode src t offset) (decode other t offset)

theorem decodeMembers_upTo {members : List Ty} (h : ∀ t ∈ members, Confined kind src other t)
    (hagree : src.AgreeUpTo kind other offset (Ty.membersRoom members)) :
    UpTo kind (decodeMembers src members offset) (decodeMembers other members offset) := by
  induction members generalizing offset with
  | nil => exact .refl _
  | cons t ts ih =>
    rw [List.forall_mem_cons] at h
    rw [Ty.membersRoom] at hagree
    rw [decodeMembers, decodeMembers]
    refine (h.1 (hagree.mono (by omega))).bind fun v _ => ?_
    refine UpTo.bind (.refl _) fun next hnext => ?_
    obtain ⟨-, rfl⟩ := advance_eq_ok.1 hnext
    -- a clamped size is no further than the room, so that what follows is read inside it
    have hsize : t.layoutSize ≤ t.room := by
      rw [Ty.layoutSize_eq_min]
      exact Nat.min_le_left _ _
    exact (ih h.2 (hagree.further hsize)).andThen _

theorem decodeCopies_upTo {n : Nat} (h : Confined kind src other t)
    (hagree : src.AgreeUpTo kind other offset (n * t.room)) :
    UpTo kind (decodeCopies (decode src t) t.layoutSize n offset)
      (decodeCopies (decode other t) t.layoutSize n offset) := by
  rw [← Ty.membersRoom_replicate] at hagree
  rw [← decodeMembers_replicate, ← decodeMembers_replicate]
  refine decodeMembers_upTo (fun u hu => ?_) hagree
  rw [List.eq_of_mem_replicate hu]
  exact h

theorem counted_upTo {ty : Ty} {bound room : Nat} {body body' : Nat → Nat → Except Fault Value}
    (hagree : src.AgreeUpTo kind other offset (32 + room))
    (hbody : ∀ n, n ≤ bound → UpTo kind (body n (offset + 32)) (body' n (offset + 32))) :
    UpTo kind
      (lengthAt ty bound src offset >>= fun n => advance offset 32 >>= fun start => body n start)
      (lengthAt ty bound other offset >>= fun n =>
        advance offset 32 >>= fun start => body' n start) := by
  refine (lengthAt_upTo ty bound (wordAt_upTo hagree (by omega))).bind fun n hlength => ?_
  refine UpTo.bind (.refl _) fun start hstart => ?_
  obtain ⟨-, rfl⟩ := advance_eq_ok.1 hstart
  exact hbody n (le_of_lengthAt hlength)

theorem confined (kind : Fault → Prop) (src other : Source) (t : Ty) :
    Confined kind src other t := by
  induction t using Ty.memberInduction with
  | uint | int | bool | address | fixedBytes =>
    intro offset h
    rw [decode, decode]
    exact (wordAt_upTo h (Nat.le_refl 32)).andThen _
  | bytes bound | string bound =>
    intro offset h
    rw [Ty.room] at h
    rw [decode, decode]
    refine counted_upTo h fun n hn => ?_
    exact (h.behind.read (by omega)).andThen _
  | array elem n ih =>
    intro offset h
    rw [Ty.room] at h
    rw [decode, decode]
    exact (decodeCopies_upTo ih h).andThen _
  | dynArray elem bound ih =>
    intro offset h
    rw [Ty.room] at h
    rw [decode, decode]
    refine counted_upTo h fun n hn => ?_
    -- the length is within the bound, so that all elements stand in the room
    have hle : n * elem.room ≤ bound * elem.room := Nat.mul_le_mul_right _ hn
    exact (decodeCopies_upTo ih (h.behind.mono hle)).andThen _
  | tuple members ih =>
    intro offset h
    rw [Ty.room] at h
    rw [decode, decode]
    exact (decodeMembers_upTo ih h).andThen _
  | struct name fields ih =>
    intro offset h
    rw [Ty.room, Ty.fieldsRoom_eq] at h
    rw [decode, decode, decodeFields_eq, decodeFields_eq]
    exact (decodeMembers_upTo ih h).andThen _
  | mapping key value =>
    intro offset _
    exact .refl _

theorem decode_congr (h : src.AgreeOn other offset t.room) :
    decode src t offset = decode other t offset :=
  upTo_false.1 (confined _ src other t (Source.agreeUpTo_false.2 h))

/-! ## Storage -/

def slotsFrom (first : Word) (n : Nat) : List Word :=
  (List.range n).map fun i => first + BitVec.ofNat 256 i

@[simp] theorem length_slotsFrom (first : Word) (n : Nat) : (slotsFrom first n).length = n := by
  rw [slotsFrom, List.length_map, List.length_range]

theorem slotsFrom_add (first : Word) (m n : Nat) :
    slotsFrom first (m + n) = slotsFrom first m ++ slotsFrom (first + BitVec.ofNat 256 m) n := by
  simp only [slotsFrom, List.range_add, List.map_append, List.map_map, BitVec.ofNat_add,
    Function.comp_def, BitVec.add_assoc]

theorem slotsFrom_succ (first : Word) (n : Nat) :
    slotsFrom first (n + 1) = first :: slotsFrom (first + 1) n := by
  have hone : slotsFrom first 1 = [first] := by simp [slotsFrom]
  rw [Nat.add_comm, slotsFrom_add, hone]
  rfl

def slotImage (words : Word → Word) (slots : List Word) : List UInt8 :=
  slots.flatMap fun slot => (words slot).toBytes

theorem length_slotImage (words : Word → Word) (slots : List Word) :
    (slotImage words slots).length = 32 * slots.length := by
  induction slots with
  | nil => rfl
  | cons slot slots ih =>
    rw [slotImage, List.flatMap_cons, List.length_append, Word.length_toBytes, ← slotImage, ih,
      List.length_cons]
    omega

theorem take_drop_slotImage (words : Word → Word) (front slots back : List Word) {start n : Nat}
    (h : start + n ≤ 32 * slots.length) :
    ((slotImage words (front ++ slots ++ back)).drop (32 * front.length + start)).take n =
      ((slotImage words slots).drop start).take n := by
  have hlen := length_slotImage words slots
  have hsplit : slotImage words (front ++ slots ++ back) =
      slotImage words front ++ (slotImage words slots ++ slotImage words back) := by
    simp only [slotImage, List.flatMap_append, List.append_assoc]
  rw [hsplit, ← List.drop_drop, List.drop_left' (length_slotImage words front),
    List.drop_append_of_le_length (by omega),
    List.take_append_of_le_length (by rw [List.length_drop]; omega)]

namespace Source

variable {read other : StorageReader} {address : Address} {words : Word → Word} {first : Word}

theorem slotBytes_congr {n : Nat}
    (h : ∀ slot ∈ slotsFrom first n, read address slot = other address slot) :
    slotBytes read address n first = slotBytes other address n first := by
  induction n generalizing first with
  | zero => rfl
  | succ n ih =>
    rw [slotsFrom_succ, List.forall_mem_cons] at h
    rw [slotBytes, slotBytes, h.1, ih h.2]

theorem length_of_slotBytes {n : Nat} {bytes : List UInt8}
    (h : slotBytes read address n first = .ok bytes) : bytes.length = 32 * n := by
  induction n generalizing first bytes with
  | zero =>
    cases h
    rfl
  | succ n ih =>
    rw [slotBytes] at h
    cases hword : read address first with
    | error e => simp [hword] at h
    | ok word =>
      cases hrest : slotBytes read address n (first + 1) with
      | error e => simp only [hword, hrest, reduceCtorEq] at h
      | ok rest =>
        simp only [hword, hrest, Except.ok.injEq] at h
        rw [← h, List.length_append, Word.length_toBytes, ih hrest]
        omega

theorem slotBytes_eq_ok {n : Nat}
    (h : ∀ slot ∈ slotsFrom first n, read address slot = .ok (words slot)) :
    slotBytes read address n first = .ok (slotImage words (slotsFrom first n)) := by
  induction n generalizing first with
  | zero => rfl
  | succ n ih =>
    rw [slotsFrom_succ, List.forall_mem_cons] at h
    rw [slotBytes, h.1, ih h.2, slotsFrom_succ]
    rfl

/-- No buffer can hold what is asked for, although it is no more than `size` bytes. -/
def Unheld (size : Nat) (fault : Fault) : Prop :=
  ∃ n, fault = .capacity n ∧ Size.bufferLimit < n ∧ n ≤ size

/-- A range that is not empty, within addressable whole words, is read from slots of these words if
a buffer can hold them. -/
theorem exists_ofStorage_eq {size start n : Nat} (hlimit : size ≤ Size.limit) (hn : 0 < n)
    (hend : start + n ≤ size) (hdvd : 32 ∣ size) :
    ∃ count rest, size / 32 = start / 32 + count + rest ∧ start % 32 + n ≤ 32 * count ∧
      ∀ (read : StorageReader) (address : Address) (base : Word),
        ofStorage read address base start n =
          if Size.bufferLimit < count * 32 then .error (.capacity (count * 32))
          else (slotBytes read address count (base + BitVec.ofNat 256 (start / 32))).map
            fun bytes => (bytes.drop (start % 32)).take n := by
  have hlast : Size.add start (n - 1) = start + (n - 1) := Nat.min_eq_left (by omega)
  refine ⟨(start + (n - 1)) / 32 + 1 - start / 32,
    size / 32 - ((start + (n - 1)) / 32 + 1), by omega, by omega, fun read address base => ?_⟩
  rw [ofStorage, if_neg (by omega), slotCount, hlast]
  refine if_congr Iff.rfl rfl ?_
  cases hbytes : slotBytes read address ((start + (n - 1)) / 32 + 1 - start / 32)
    (base + BitVec.ofNat 256 (start / 32)) with
  | error fault => rfl
  | ok bytes =>
    have hlen := length_of_slotBytes hbytes
    dsimp only
    rw [if_pos (by omega)]
    rfl

/-- Storages that agree on some slots agree on the bytes of these. -/
theorem ofStorage_agreeOn {base : Word} {size : Nat} (hlimit : size ≤ Size.limit)
    (hdvd : 32 ∣ size)
    (h : ∀ slot ∈ slotsFrom base (size / 32), read address slot = other address slot) :
    (ofStorage read address base).AgreeOn (ofStorage other address base) 0 size := by
  intro start n hend
  rw [Nat.zero_add]
  rcases Nat.eq_zero_or_pos n with rfl | hn
  · rfl
  · obtain ⟨count, rest, hcount, -, hread⟩ := exists_ofStorage_eq hlimit hn hend hdvd
    rw [hcount, slotsFrom_add, slotsFrom_add] at h
    rw [hread, hread, slotBytes_congr fun slot hslot => h slot (by simp [hslot])]

theorem ofStorage_agreeUpTo_ofBytes {base : Word} {size : Nat} (hlimit : size ≤ Size.limit)
    (hdvd : 32 ∣ size)
    (h : ∀ slot ∈ slotsFrom base (size / 32), read address slot = .ok (words slot)) :
    (ofStorage read address base).AgreeUpTo (Unheld size)
      (ofBytes (slotImage words (slotsFrom base (size / 32)))) 0 size := by
  intro start n hend
  rw [Nat.zero_add]
  have hlen : (slotImage words (slotsFrom base (size / 32))).length = size := by
    rw [length_slotImage, length_slotsFrom, Nat.mul_div_cancel' hdvd]
  rcases Nat.eq_zero_or_pos n with rfl | hn
  · rw [ofBytes, if_pos (by omega)]
    exact .refl _
  · obtain ⟨count, rest, hcount, hinner, hread⟩ := exists_ofStorage_eq hlimit hn hend hdvd
    rw [hread]
    by_cases hheld : Size.bufferLimit < count * 32
    · rw [if_pos hheld]
      exact .inr ⟨_, ⟨count * 32, rfl, hheld, by omega⟩, rfl⟩
    · have hbytes := take_drop_slotImage words (slotsFrom base (start / 32))
        (slotsFrom (base + BitVec.ofNat 256 (start / 32)) count)
        (slotsFrom (base + BitVec.ofNat 256 (start / 32 + count)) rest)
        (by rw [length_slotsFrom]; exact hinner)
      rw [length_slotsFrom, Nat.div_add_mod] at hbytes
      rw [hcount, slotsFrom_add, slotsFrom_add] at h
      rw [if_neg hheld, slotBytes_eq_ok fun slot hslot => h slot (by simp [hslot]), ofBytes,
        if_pos (by omega), hcount, slotsFrom_add, slotsFrom_add, hbytes]
      exact .refl _

theorem ofBytes_agreeOn (data back other : List UInt8) :
    (ofBytes (data ++ back)).AgreeOn (ofBytes (data ++ other)) 0 data.length := by
  intro start n hend
  rw [Nat.zero_add]
  have hread : ∀ rest, ofBytes (data ++ rest) start n = .ok ((data.drop start).take n) := by
    intro rest
    rw [ofBytes, if_pos (by rw [List.length_append]; omega),
      List.drop_append_of_le_length (by omega),
      List.take_append_of_le_length (by rw [List.length_drop]; omega)]
  rw [hread, hread]

theorem ofMemory_agreeUpTo_ofBytes {image : List UInt8} {offset size zeros : Nat}
    (h : offset + size ≤ image.length + zeros) :
    (ofMemory image).AgreeUpTo (Unheld size) (ofBytes (image ++ List.replicate zeros 0)) offset
      size := by
  intro start n hend
  unfold ofMemory
  split
  · exact .inr ⟨_, ⟨n, rfl, ‹_›, by omega⟩, rfl⟩
  · dsimp only
    have hknown : ((image.drop (offset + start)).take n).length =
        min n (image.length - (offset + start)) := by
      rw [List.length_take, List.length_drop]
    have hmissing : n - min n (image.length - (offset + start)) =
        min (n - (image.length - (offset + start))) (zeros - (offset + start - image.length)) := by
      omega
    rw [ofBytes, if_pos (by rw [List.length_append, List.length_replicate]; omega),
      List.drop_append, List.take_append, List.drop_replicate, List.take_replicate,
      List.length_drop, hknown, hmissing]
    exact .refl _

end Source

end Layout

def Ty.slots (t : Ty) (first : Word) : List Word := Layout.slotsFrom first (t.layoutSize / 32)

namespace Layout

variable {t : Ty}

theorem decode_ofStorage_congr {read other : StorageReader} {address : Address} {base : Word}
    (hroom : t.room ≤ Size.limit)
    (h : ∀ slot ∈ t.slots base, read address slot = other address slot) :
    decode (.ofStorage read address base) t 0 = decode (.ofStorage other address base) t 0 := by
  rw [Ty.slots, Ty.layoutSize_eq_room hroom] at h
  exact decode_congr (Source.ofStorage_agreeOn hroom t.dvd_room h)

/-- Where a value is decoded from makes no difference: storage that can be read does as well as the
bytes of its slots, and call memory as its image with as many zeros behind it as the value takes.
They have no buffer for some range only where no buffer could hold those bytes either. -/
theorem decode_interchangeable (t : Ty) (hroom : t.room ≤ Size.limit) :
    (∀ (read : StorageReader) (address : Address) (base : Word) (words : Word → Word),
      (∀ slot, read address slot = .ok (words slot)) →
      decode (.ofStorage read address base) t 0 =
          decode (.ofBytes (slotImage words (t.slots base))) t 0 ∨
        Size.bufferLimit < (slotImage words (t.slots base)).length ∧
          ∃ n, decode (.ofStorage read address base) t 0 = .error (.capacity n)) ∧
    ∀ (image : List UInt8) (offset zeros : Nat), offset + t.room ≤ image.length + zeros →
      decode (.ofMemory image) t offset =
          decode (.ofBytes (image ++ List.replicate zeros 0)) t offset ∨
        Size.bufferLimit < (image ++ List.replicate zeros 0).length ∧
          ∃ n, decode (.ofMemory image) t offset = .error (.capacity n) := by
  constructor
  · intro read address base words hread
    rw [Ty.slots, Ty.layoutSize_eq_room hroom]
    obtain heq | ⟨_, ⟨n, rfl, hheld, hle⟩, hfault⟩ := confined _ _ _ t
      (Source.ofStorage_agreeUpTo_ofBytes hroom t.dvd_room fun slot _ => hread slot)
    · exact .inl heq
    · refine .inr ⟨?_, n, hfault⟩
      rw [length_slotImage, length_slotsFrom, Nat.mul_div_cancel' t.dvd_room]
      exact Nat.lt_of_lt_of_le hheld hle
  · intro image offset zeros hend
    obtain heq | ⟨_, ⟨n, rfl, hheld, hle⟩, hfault⟩ := confined _ _ _ t
      (Source.ofMemory_agreeUpTo_ofBytes hend)
    · exact .inl heq
    · refine .inr ⟨?_, n, hfault⟩
      rw [List.length_append, List.length_replicate]
      omega

def acrossTheEnd (slot : Word) : Word :=
  if slot = BitVec.allOnes 256 then 2
  else if slot = 0 then Word.ofBytes ([104, 105] ++ List.replicate 30 0) else 7

/-- Slots go on at zero behind the last one, and memory with zeros behind its image, which here ends
within the text. -/
theorem decode_interchangeable_acrossTheEnd :
    (Ty.tuple [.string 5, .uint 8]).room ≤ Size.limit ∧
      decode (.ofStorage (fun _ slot => .ok (acrossTheEnd slot)) 1 (BitVec.allOnes 256))
        (.tuple [.string 5, .uint 8]) 0 = .ok (.tuple [.string "hi", .uint 7 8]) ∧
      decode (.ofMemory ([1, 2] ++ bytesOfNat 32 2 ++ [104])) (.tuple [.string 5, .uint 8]) 2 =
        .ok (.tuple [.string "h\x00", .uint 0 8]) := by
  have hroom : (Ty.tuple [.string 5, .uint 8]).room ≤ Size.limit := by decide
  obtain ⟨hstorage, hmemory⟩ := decode_interchangeable (.tuple [.string 5, .uint 8]) hroom
  refine ⟨hroom, ?_, ?_⟩
  · have hheld : ¬ Size.bufferLimit < (slotImage acrossTheEnd
        ((Ty.tuple [.string 5, .uint 8]).slots (BitVec.allOnes 256))).length := by decide +kernel
    obtain heq | ⟨hlong, -⟩ := hstorage (fun _ slot => .ok (acrossTheEnd slot)) 1
      (BitVec.allOnes 256) acrossTheEnd fun _ => rfl
    · exact heq.trans (by decide +kernel)
    · exact absurd hlong hheld
  · obtain heq | ⟨hlong, -⟩ := hmemory ([1, 2] ++ bytesOfNat 32 2 ++ [104]) 2 96 (by decide)
    · exact heq.trans (by decide +kernel)
    · exact absurd hlong (by decide +kernel)

/-- What is decoded depends on no byte outside the room of the type, whatever the length words say:
sources that agree there decode alike, and a source that refuses everything else does as well.  Room
that ends at an addressable offset is the size that the layout is given. -/
theorem decode_local (t : Ty) (offset : Nat) :
    (offset + t.room ≤ Size.limit → t.layoutSize = t.room) ∧
    (∀ src other : Source, src.AgreeOn other offset t.room →
      decode src t offset = decode other t offset) ∧
    ∀ (src : Source) (fault : Fault),
      decode (src.within offset t.room fault) t offset = decode src t offset := by
  refine ⟨fun hlimit => ?_, fun src other h => decode_congr h, fun src fault => ?_⟩
  · exact Ty.layoutSize_eq_room (by omega)
  · exact decode_congr (src.within_agreeOn offset t.room fault)

/-- Two buffers with the same text and different bytes behind its room.  The length word of one more
byte than the text may have is refused in both, although the byte is there. -/
theorem decode_local_boundedText :
    ∃ data back other : List UInt8, back ≠ other ∧ (Ty.string 32).layoutSize = data.length ∧
      (Source.ofBytes (data ++ back)).AgreeOn (.ofBytes (data ++ other)) 0 (Ty.string 32).room ∧
      decode (.ofBytes (data ++ back)) (.string 32) 0 =
        decode (.ofBytes (data ++ other)) (.string 32) 0 ∧
      decode (.ofBytes (data ++ back)) (.string 32) 0 =
        .error (.lengthExceeded (.string 32) 33) := by
  have hagree : (Source.ofBytes (bytesOfNat 32 33 ++ List.replicate 32 104 ++ [105])).AgreeOn
      (.ofBytes (bytesOfNat 32 33 ++ List.replicate 32 104 ++ [0, 1])) 0 (Ty.string 32).room :=
    Source.ofBytes_agreeOn _ _ _
  obtain ⟨hsize, hlocal, -⟩ := decode_local (.string 32) 0
  exact ⟨_, [105], [0, 1], by decide, (hsize (by decide)).trans (by decide +kernel), hagree,
    hlocal _ _ hagree, by decide +kernel⟩

end Layout

end EvmInspect
