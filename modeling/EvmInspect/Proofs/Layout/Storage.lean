import EvmInspect.Proofs.Layout.Window
import EvmInspect.Ty.Parser
/-!
# Reads of storage

A range of storage is given exactly, byte by byte, as long as it ends at the last addressable byte
or before and a buffer can hold its slots.  Where no buffer can, the program stops before it reads a
slot.  Of a range that goes on behind the last addressable byte only the words up to there are read:
if none of them is refused, the program stops where it cuts the range out of them.  Decoding asks
for such ranges only for types that keep more room than that.
-/

namespace EvmInspect.Layout

namespace Source

variable {read : StorageReader} {address : Address} {base first : Word} {n : Nat}

/-- The slot in which a byte of storage stands, by its distance from the first byte of a slot. -/
def slotOf (base : Word) (position : Nat) : Word := base + BitVec.ofNat 256 (position / 32)

theorem slotOf_add (base : Word) (offset i : Nat) :
    slotOf (base + BitVec.ofNat 256 (offset / 32)) (offset % 32 + i) =
      slotOf base (offset + i) := by
  have hslot : offset / 32 + (offset % 32 + i) / 32 = (offset + i) / 32 := by omega
  rw [slotOf, slotOf, BitVec.add_assoc, ← BitVec.ofNat_add, hslot]

theorem slotOf_next (first : Word) (i : Nat) : slotOf (first + 1) i = slotOf first (32 + i) := by
  have hslot : (32 + i) / 32 = 1 + i / 32 := by omega
  rw [slotOf, slotOf, hslot, BitVec.ofNat_add, ← BitVec.add_assoc]
  rfl

theorem slotOf_succ (first : Word) (i : Nat) :
    slotOf (first + 1) (32 * i) = slotOf first (32 * (i + 1)) := by
  rw [slotOf_next, Nat.mul_succ, Nat.add_comm]

def Readable (read : StorageReader) (address : Address) (base : Word) (position : Nat) : Prop :=
  ∃ word, read address (slotOf base position) = .ok word

/-- The byte at a position, of the word in its slot. -/
def ByteAt (read : StorageReader) (address : Address) (base : Word) (position : Nat)
    (byte : Option UInt8) : Prop :=
  ∃ word, read address (slotOf base position) = .ok word ∧ byte = word.toBytes[position % 32]?

theorem ByteAt.unique {position : Nat} {byte other : Option UInt8}
    (h : ByteAt read address base position byte) (h' : ByteAt read address base position other) :
    byte = other := by
  obtain ⟨word, hread, hbyte⟩ := h
  obtain ⟨word', hread', hbyte'⟩ := h'
  have hword : word = word' := Except.ok.inj (hread.symm.trans hread')
  rw [hbyte, hbyte', hword]

/-! ## Slots in a row -/

theorem byteAt_of_slotBytes {bytes : List UInt8} (h : slotBytes read address n first = .ok bytes)
    {i : Nat} (hi : i < 32 * n) : ByteAt read address first i bytes[i]? := by
  induction n generalizing first bytes i with
  | zero => omega
  | succ n ih =>
    rw [slotBytes] at h
    cases hword : read address first with
    | error e => simp [hword] at h
    | ok word =>
      cases hrest : slotBytes read address n (first + 1) with
      | error e => simp only [hword, hrest, reduceCtorEq] at h
      | ok rest =>
        simp only [hword, hrest, Except.ok.injEq] at h
        have hlen := Word.length_toBytes word
        subst h
        rcases Nat.lt_or_ge i 32 with hfirst | hlater
        · refine ⟨word, ?_, ?_⟩
          · rw [slotOf, Nat.div_eq_of_lt hfirst, BitVec.add_zero, hword]
          · rw [List.getElem?_append_left (by omega), Nat.mod_eq_of_lt hfirst]
        · obtain ⟨j, rfl⟩ := Nat.exists_eq_add_of_le hlater
          obtain ⟨word', hread, hbyte⟩ := ih hrest (i := j) (by omega)
          rw [slotOf_next] at hread
          refine ⟨word', hread, ?_⟩
          rw [List.getElem?_append_right (by omega), hlen, Nat.add_sub_cancel_left, hbyte,
            Nat.add_mod_left]

theorem slotBytes_eq_error {fault : Fault} :
    slotBytes read address n first = .error fault ↔
      ∃ i e, i < n ∧ (∀ j < i, Readable read address first (32 * j)) ∧
        read address (slotOf first (32 * i)) = .error e ∧ fault = .storage (.unreadable e) := by
  induction n generalizing first with
  | zero => simp [slotBytes]
  | succ n ih =>
    have hzero : slotOf first (32 * 0) = first := BitVec.add_zero first
    rw [slotBytes]
    cases hword : read address first with
    | error e =>
      constructor
      · intro h
        cases h
        exact ⟨0, e, Nat.succ_pos n, by omega, by rw [hzero, hword], rfl⟩
      · rintro ⟨i, e', -, hbefore, hread, rfl⟩
        -- the first slot is refused, so no other one is reached
        obtain rfl : i = 0 := by
          by_contra hne
          obtain ⟨word, hread⟩ := hbefore 0 (by omega)
          rw [hzero, hword] at hread
          cases hread
        rw [hzero, hword] at hread
        cases hread
        rfl
    | ok word =>
      have hstep : slotBytes read address n (first + 1) = .error fault ↔
          ∃ i e, i < n + 1 ∧ (∀ j < i, Readable read address first (32 * j)) ∧
            read address (slotOf first (32 * i)) = .error e ∧
              fault = .storage (.unreadable e) := by
        rw [ih]
        constructor
        · rintro ⟨i, e, hi, hbefore, hread, rfl⟩
          refine ⟨i + 1, e, by omega, fun j hj => ?_, ?_, rfl⟩
          · cases j with
            | zero => exact ⟨word, by rw [hzero, hword]⟩
            | succ j =>
              have hj := hbefore j (by omega)
              rwa [Readable, slotOf_succ] at hj
          · rwa [slotOf_succ] at hread
        · rintro ⟨i, e, hi, hbefore, hread, rfl⟩
          cases i with
          | zero =>
            rw [hzero, hword] at hread
            cases hread
          | succ i =>
            refine ⟨i, e, by omega, fun j hj => ?_, ?_, rfl⟩
            · rw [Readable, slotOf_succ]
              exact hbefore (j + 1) (by omega)
            · rwa [slotOf_succ]
      rw [← hstep]
      cases slotBytes read address n (first + 1) <;> simp

/-! ## Ranges -/

variable {offset length : Nat} {whole bytes : List UInt8}

theorem slotOf_congr {p q : Nat} (h : p / 32 = q / 32) : slotOf base p = slotOf base q := by
  rw [slotOf, slotOf, h]

/-- A buffer can hold the slots of a range. -/
def Held (offset length : Nat) : Prop :=
  slotCount offset length * Size.wordBytes ≤ Size.bufferLimit

instance (offset length : Nat) : Decidable (Held offset length) :=
  inferInstanceAs (Decidable (_ ≤ _))

theorem Held.mono {start n : Nat} (h : Held offset length) (hend : offset + length ≤ Size.limit + 1)
    (hstart : offset ≤ start) (hstop : start + n ≤ offset + length) : Held start n := by
  have hcount : slotCount start n ≤ slotCount offset length := by
    unfold slotCount Size.add
    omega
  exact Nat.le_trans (Nat.mul_le_mul_right _ hcount) h

/-- A word is never too much. -/
theorem held_of_le_word (h : length ≤ Size.wordBytes) : Held offset length := by
  have hword : Size.wordBytes = 32 := rfl
  have hcount : slotCount offset length ≤ 2 := by
    unfold slotCount Size.add
    omega
  exact Nat.le_trans (Nat.mul_le_mul_right _ hcount) (by decide)

theorem held_of_dvd (hdvd : 32 ∣ length) (h : length ≤ Size.bufferLimit) : Held 0 length := by
  rcases Nat.eq_zero_or_pos length with rfl | hpos
  · decide
  · have hlimit : Size.bufferLimit ≤ Size.limit := by decide
    have hlast : Size.add 0 (length - 1) = length - 1 := by
      unfold Size.add
      omega
    have hcount : slotCount 0 length * Size.wordBytes = length := by
      rw [slotCount, hlast, Size.wordBytes]
      omega
    exact Nat.le_trans (Nat.le_of_eq hcount) h

theorem ofStorage_of_not_held (hlength : length ≠ 0) (hheld : ¬ Held offset length) :
    ofStorage read address base offset length =
      .error (.capacity (slotCount offset length * Size.wordBytes)) := by
  rw [ofStorage, if_neg hlength]
  exact if_pos (Nat.lt_of_not_le hheld)

theorem ofStorage_of_slotBytes (hlength : length ≠ 0) (hheld : Held offset length)
    (h : slotBytes read address (slotCount offset length) (base + BitVec.ofNat 256 (offset / 32)) =
      .ok whole) :
    ofStorage read address base offset length =
      if offset + length ≤ Size.limit + 1 then .ok ((whole.drop (offset % 32)).take length)
      else .error
        (.storage (.cut (offset % 32 + length) (Size.limit + 1 - offset / 32 * 32))) := by
  have hlimit : Size.limit = 18446744073709551615 := rfl
  have hlen := length_of_slotBytes h
  unfold slotCount Size.add at hlen
  have hstop : offset % 32 + length ≤ whole.length ↔ offset + length ≤ Size.limit + 1 := by omega
  have havailable : ¬ offset + length ≤ Size.limit + 1 →
      whole.length = Size.limit + 1 - offset / 32 * 32 := by omega
  rw [ofStorage, if_neg hlength]
  simp only [if_neg (Nat.not_lt.2 hheld), h, hstop]
  split
  · rfl
  · rw [havailable ‹_›]

theorem ofStorage_of_slotBytes_error {fault : Fault} (hlength : length ≠ 0)
    (hheld : Held offset length)
    (h : slotBytes read address (slotCount offset length) (base + BitVec.ofNat 256 (offset / 32)) =
      .error fault) :
    ofStorage read address base offset length = .error fault := by
  rw [ofStorage, if_neg hlength]
  simp only [if_neg (Nat.not_lt.2 hheld), h]

theorem lt_slotCount {i : Nat} (hi : i < length) (hend : offset + i ≤ Size.limit) :
    offset % 32 + i < 32 * slotCount offset length := by
  have hlimit : Size.limit = 18446744073709551615 := rfl
  unfold slotCount Size.add
  omega

theorem readable_of_slotBytes
    (h : slotBytes read address (slotCount offset length) (base + BitVec.ofNat 256 (offset / 32)) =
      .ok whole) {i : Nat} (hi : i < length) (hend : offset + i ≤ Size.limit) :
    Readable read address base (offset + i) := by
  obtain ⟨word, hread, -⟩ := byteAt_of_slotBytes h (lt_slotCount hi hend)
  rw [slotOf_add] at hread
  exact ⟨word, hread⟩

theorem byteAt_of_cut
    (h : slotBytes read address (slotCount offset length) (base + BitVec.ofNat 256 (offset / 32)) =
      .ok whole) (hend : offset + length ≤ Size.limit + 1) {i : Nat} (hi : i < length) :
    ByteAt read address base (offset + i) ((whole.drop (offset % 32)).take length)[i]? := by
  obtain ⟨word, hread, hbyte⟩ := byteAt_of_slotBytes h (lt_slotCount hi (by omega))
  rw [slotOf_add] at hread
  have hposition : (offset % 32 + i) % 32 = (offset + i) % 32 := by omega
  refine ⟨word, hread, ?_⟩
  rw [List.getElem?_take_of_lt hi, List.getElem?_drop, hbyte, hposition]

theorem slotBytes_slotCount_eq_error (hlength : length ≠ 0) {fault : Fault} :
    slotBytes read address (slotCount offset length) (base + BitVec.ofNat 256 (offset / 32)) =
        .error fault ↔
      ∃ p e, offset ≤ p ∧ p < offset + length ∧ p ≤ Size.limit ∧
        (∀ q, offset ≤ q → q / 32 < p / 32 → Readable read address base q) ∧
        read address (slotOf base p) = .error e ∧ fault = .storage (.unreadable e) := by
  have hlimit : Size.limit = 18446744073709551615 := rfl
  have hslot : ∀ i, slotOf (base + BitVec.ofNat 256 (offset / 32)) (32 * i) =
      slotOf base (32 * (offset / 32 + i)) := by
    intro i
    have hshift := slotOf_add base (32 * (offset / 32)) (32 * i)
    rwa [Nat.mul_mod_right, Nat.zero_add, Nat.mul_div_cancel_left _ (by omega),
      ← Nat.mul_add] at hshift
  rw [slotBytes_eq_error]
  constructor
  · rintro ⟨i, e, hi, hbefore, hread, rfl⟩
    unfold slotCount Size.add at hi
    -- the first byte of the range that stands in the refused slot
    refine ⟨max offset (32 * (offset / 32 + i)), e, by omega, by omega, by omega, ?_, ?_, rfl⟩
    · intro q hq hlt
      have hj := hbefore (q / 32 - offset / 32) (by omega)
      rwa [Readable, hslot, slotOf_congr (q := q) (by omega)] at hj
    · rwa [hslot, slotOf_congr (q := max offset (32 * (offset / 32 + i))) (by omega)] at hread
  · rintro ⟨p, e, hle, hlt, hp, hbefore, hread, rfl⟩
    refine ⟨p / 32 - offset / 32, e, ?_, fun j hj => ?_, ?_, rfl⟩
    · unfold slotCount Size.add
      omega
    · rw [Readable, hslot, slotOf_congr (q := max offset (32 * (offset / 32 + j))) (by omega)]
      exact hbefore _ (by omega) (by omega)
    · rwa [hslot, slotOf_congr (q := p) (by omega)]

theorem ofStorage_eq_ok :
    ofStorage read address base offset length = .ok bytes ↔
      (length = 0 ∨ offset + length ≤ Size.limit + 1 ∧ Held offset length) ∧
        bytes.length = length ∧ ∀ i < length, ByteAt read address base (offset + i) bytes[i]? := by
  by_cases hlength : length = 0
  · subst hlength
    simp [ofStorage, eq_comm]
  by_cases hheld : Held offset length
  swap
  · rw [ofStorage_of_not_held hlength hheld]
    simp only [reduceCtorEq, hlength, hheld, and_false, or_self, false_and]
  cases hwhole : slotBytes read address (slotCount offset length)
    (base + BitVec.ofNat 256 (offset / 32)) with
  | error fault =>
    rw [ofStorage_of_slotBytes_error hlength hheld hwhole]
    simp only [reduceCtorEq, false_iff]
    rintro ⟨-, -, hbytes⟩
    obtain ⟨p, e, hle, hlt, -, -, hread, -⟩ := (slotBytes_slotCount_eq_error hlength).1 hwhole
    obtain ⟨word, hword, -⟩ := hbytes (p - offset) (by omega)
    rw [Nat.add_sub_cancel' hle, hread] at hword
    cases hword
  | ok whole =>
    rw [ofStorage_of_slotBytes hlength hheld hwhole, ite_error_eq_ok]
    have hcut := fun hend i => byteAt_of_cut (i := i) hwhole hend
    have hlen : offset + length ≤ Size.limit + 1 →
        ((whole.drop (offset % 32)).take length).length = length := by
      intro hend
      have hlimit : Size.limit = 18446744073709551615 := rfl
      have hwords := length_of_slotBytes hwhole
      unfold slotCount Size.add at hwords
      rw [List.length_take, List.length_drop]
      omega
    constructor
    · rintro ⟨hend, h⟩
      cases h
      exact ⟨.inr ⟨hend, hheld⟩, hlen hend, hcut hend⟩
    · rintro ⟨hrange, hbytes, hat⟩
      have hend : offset + length ≤ Size.limit + 1 := (hrange.resolve_left hlength).1
      refine ⟨hend, congrArg Except.ok (List.ext_getElem? fun i => ?_)⟩
      rcases Nat.lt_or_ge i length with hi | hi
      · exact (hcut hend i hi).unique (hat i hi)
      · rw [List.getElem?_eq_none (by rw [hlen hend]; exact hi),
          List.getElem?_eq_none (by rw [hbytes]; exact hi)]

theorem ofStorage_eq_error {fault : Fault} :
    ofStorage read address base offset length = .error fault ↔
      length ≠ 0 ∧
        ((¬ Held offset length ∧
            fault = .capacity (slotCount offset length * Size.wordBytes)) ∨
          (Held offset length ∧ ∃ p e, offset ≤ p ∧ p < offset + length ∧ p ≤ Size.limit ∧
            (∀ q, offset ≤ q → q / 32 < p / 32 → Readable read address base q) ∧
            read address (slotOf base p) = .error e ∧ fault = .storage (.unreadable e)) ∨
          (Held offset length ∧ Size.limit + 1 < offset + length ∧
            (∀ p, offset ≤ p → p ≤ Size.limit → Readable read address base p) ∧
            fault =
              .storage (.cut (offset % 32 + length) (Size.limit + 1 - offset / 32 * 32)))) := by
  by_cases hlength : length = 0
  · subst hlength
    simp [ofStorage]
  by_cases hheld : Held offset length
  swap
  · rw [ofStorage_of_not_held hlength hheld]
    simp [hlength, hheld, eq_comm]
  rw [← slotBytes_slotCount_eq_error hlength]
  simp only [ne_eq, hlength, hheld, not_true, not_false_eq_true, true_and, false_and, false_or]
  cases hwhole : slotBytes read address (slotCount offset length)
    (base + BitVec.ofNat 256 (offset / 32)) with
  | error fault' =>
    rw [ofStorage_of_slotBytes_error hlength hheld hwhole]
    refine ⟨.inl, ?_⟩
    rintro (h | ⟨hend, hreadable, -⟩)
    · exact h
    · obtain ⟨p, e, hle, -, hp, -, hread, -⟩ := (slotBytes_slotCount_eq_error hlength).1 hwhole
      obtain ⟨word, hword⟩ := hreadable p hle hp
      rw [hread] at hword
      cases hword
  | ok whole =>
    rw [ofStorage_of_slotBytes hlength hheld hwhole]
    simp only [reduceCtorEq, false_or]
    constructor
    · intro h
      split at h
      · cases h
      · rename_i hend
        cases h
        refine ⟨by omega, fun p hle hp => ?_, rfl⟩
        obtain ⟨i, rfl⟩ := Nat.exists_eq_add_of_le hle
        exact readable_of_slotBytes hwhole (by omega) hp
    · rintro ⟨hend, -, rfl⟩
      rw [if_neg (by omega)]

end Source

/-! ## Faults of decoding -/

theorem reported_advance (offset distance : Nat) :
    Reported Fault.stops (advance offset distance) := by
  unfold advance
  split
  · exact reported_ok _
  · exact reported_error rfl

theorem reported_checked (t : Ty) (check : Except Ty.Illegal Unit) (v : Value) :
    Reported Fault.stops (checked t check v) := by
  unfold checked
  split
  · exact reported_ok v
  · exact reported_error rfl

def Source.Steady (src : Source) : Prop := ∀ start n, Reported Fault.stops (src start n)

variable {src : Source} {t : Ty} {offset : Nat}

theorem reported_wordAt (hsrc : src.Steady) (offset : Nat) :
    Reported Fault.stops (wordAt src offset) := by
  intro fault h
  exact hsrc offset 32 fault (map_eq_error.1 h)

theorem reported_lengthAt (hsrc : src.Steady) (t : Ty) (bound offset : Nat) :
    Reported Fault.stops (lengthAt t bound src offset) :=
  (reported_wordAt hsrc offset).bind fun _ => reported_ite rfl

theorem reported_decodeMembers {members : List Ty}
    (h : ∀ t ∈ members, ∀ offset, Reported Fault.stops (decode src t offset)) (offset : Nat) :
    Reported Fault.stops (decodeMembers src members offset) := by
  induction members generalizing offset with
  | nil => exact reported_ok []
  | cons t ts ih =>
    rw [List.forall_mem_cons] at h
    rw [decodeMembers]
    refine (h.1 offset).bind fun v => (reported_advance _ _).bind fun next => ?_
    exact (ih h.2 next).bind fun vs => reported_ok _

theorem reported_decodeCopies (h : ∀ offset, Reported Fault.stops (decode src t offset))
    (n offset : Nat) :
    Reported Fault.stops (decodeCopies (decode src t) t.layoutSize n offset) := by
  rw [← decodeMembers_replicate]
  refine reported_decodeMembers (fun u hu => ?_) offset
  rw [List.eq_of_mem_replicate hu]
  exact h

theorem reported_decode (hsrc : src.Steady) (t : Ty) (offset : Nat) :
    Reported Fault.stops (decode src t offset) := by
  induction t using Ty.memberInduction generalizing offset with
  | uint bits | int bits =>
    rw [decode]
    exact (reported_wordAt hsrc offset).bind fun word => reported_checked _ _ _
  | bool | address | fixedBytes size =>
    rw [decode]
    exact (reported_wordAt hsrc offset).bind fun word => reported_ite rfl
  | bytes bound =>
    rw [decode]
    refine (reported_lengthAt hsrc _ _ _).bind fun n => (reported_advance _ _).bind fun start => ?_
    exact (hsrc start n).bind fun data => reported_ok _
  | string bound =>
    rw [decode]
    refine (reported_lengthAt hsrc _ _ _).bind fun n => (reported_advance _ _).bind fun start => ?_
    refine (hsrc start n).bind fun data => ?_
    split
    · exact reported_ok _
    · exact reported_error rfl
  | array elem n ih =>
    rw [decode]
    exact (reported_decodeCopies ih n offset).bind fun items => reported_ok _
  | dynArray elem bound ih =>
    rw [decode]
    refine (reported_lengthAt hsrc _ _ _).bind fun n => (reported_advance _ _).bind fun start => ?_
    exact (reported_decodeCopies ih n start).bind fun items => reported_ok _
  | tuple members ih =>
    rw [decode]
    exact (reported_decodeMembers ih offset).bind fun items => reported_ok _
  | struct name fields ih =>
    rw [decode, decodeFields_eq]
    exact (reported_decodeMembers ih offset).bind fun items => reported_ok _
  | mapping key value => exact reported_error rfl

theorem steady_ofBytes (data : List UInt8) : (Source.ofBytes data).Steady := by
  intro start n
  unfold Source.ofBytes
  split
  · exact reported_ok _
  · exact reported_error rfl

/-- Storage that is only asked for addressable bytes in slots that a buffer can hold reports every
fault. -/
theorem steady_within_ofStorage (read : StorageReader) (address : Address) (base : Word)
    (size : Nat) (hend : offset + size ≤ Size.limit + 1) (hheld : Source.Held offset size) :
    ((Source.ofStorage read address base).within offset size .notText).Steady := by
  intro start n fault h
  rw [Source.within] at h
  split at h
  · obtain ⟨-, ⟨hunheld, -⟩ | ⟨-, _, _, -, -, -, -, -, rfl⟩ | ⟨-, hpast, -⟩⟩ :=
      Source.ofStorage_eq_error.1 h
    · exact absurd (hheld.mono hend (by omega) (by omega)) hunheld
    · rfl
    · omega
  · cases h
    rfl

/-- Decoding stops only at types that keep more room than can be addressed or held. -/
theorem room_of_stops {read : StorageReader} {address : Address} {base : Word} {fault : Fault}
    (h : decode (.ofStorage read address base) t offset = .error fault)
    (hstops : fault.stops = true) :
    Size.limit + 1 < offset + t.room ∨ ¬ Source.Held offset t.room := by
  by_contra hcon
  obtain ⟨hend, hheld⟩ := not_or.1 hcon
  -- inside its room the type is decoded as if there were nothing else to read
  rw [← decode_congr (Source.within_agreeOn (.ofStorage read address base) offset t.room
    .notText)] at h
  have hsteady := steady_within_ofStorage read address base t.room (Nat.not_lt.1 hend)
    (not_not.1 hheld)
  rw [reported_decode hsteady t offset fault h] at hstops
  cases hstops

/-- Storage is read exactly.  A range is given just if it ends at the last addressable byte or
before, a buffer can hold its slots and none of them is refused, and then each byte is that of the
word in its slot, slots counted modulo the size of a word; the first slot that is refused is
reported.  The program stops before it reads anything where no buffer can hold the slots, and behind
the last of them on any other range that goes on behind the last addressable byte, and only then, so
that decoding stops at no type whose room ends at that byte or before and whose slots a buffer can
hold. -/
theorem ofStorage_exact (read : StorageReader) (address : Address) (base : Word) (offset : Nat) :
    (∀ length bytes, Source.ofStorage read address base offset length = .ok bytes ↔
      (length = 0 ∨ offset + length ≤ Size.limit + 1 ∧ Source.Held offset length) ∧
        bytes.length = length ∧
        ∀ i < length, Source.ByteAt read address base (offset + i) bytes[i]?) ∧
    (∀ length fault, Source.ofStorage read address base offset length = .error fault ↔
      length ≠ 0 ∧
        ((¬ Source.Held offset length ∧
            fault = .capacity (Source.slotCount offset length * Size.wordBytes)) ∨
          (Source.Held offset length ∧
            ∃ p e, offset ≤ p ∧ p < offset + length ∧ p ≤ Size.limit ∧
              (∀ q, offset ≤ q → q / 32 < p / 32 → Source.Readable read address base q) ∧
              read address (Source.slotOf base p) = .error e ∧ fault = .storage (.unreadable e)) ∨
          (Source.Held offset length ∧ Size.limit + 1 < offset + length ∧
            (∀ p, offset ≤ p → p ≤ Size.limit → Source.Readable read address base p) ∧
            fault =
              .storage (.cut (offset % 32 + length) (Size.limit + 1 - offset / 32 * 32))))) ∧
    ∀ t fault, decode (.ofStorage read address base) t offset = .error fault →
      fault.stops = true → Size.limit + 1 < offset + t.room ∨ ¬ Source.Held offset t.room := by
  exact ⟨fun length bytes => Source.ofStorage_eq_ok, fun length fault =>
    Source.ofStorage_eq_error, fun t fault h hstops => room_of_stops h hstops⟩

/-- A range that begins in the last slot of all goes on in the first, and a number that is decoded
at the last addressable byte goes on behind it. -/
theorem ofStorage_exact_ends :
    Source.ofStorage (fun _ slot => .ok slot) 1 (BitVec.allOnes 256) 31 2 = .ok [255, 0] ∧
      (∀ i < 2, Source.ByteAt (fun _ slot => .ok slot) 1 (BitVec.allOnes 256) (31 + i)
        ([255, 0] : List UInt8)[i]?) ∧
      decode (.ofStorage (fun _ slot => .ok slot) 1 0) (.uint 256) Size.limit =
        .error (.storage (.cut 63 32)) ∧
      Size.limit + 1 < Size.limit + (Ty.uint 256).room := by
  have hread : Source.ofStorage (fun _ slot => .ok slot) 1 (BitVec.allOnes 256) 31 2 =
      .ok [255, 0] := by decide +kernel
  have hdecode : decode (.ofStorage (fun _ slot => .ok slot) 1 0) (.uint 256) Size.limit =
      .error (.storage (.cut 63 32)) := by decide +kernel
  obtain ⟨hgiven, -, -⟩ := ofStorage_exact (fun _ slot => .ok slot) 1 (BitVec.allOnes 256) 31
  obtain ⟨-, -, hstops⟩ := ofStorage_exact (fun _ slot => .ok slot) 1 0 Size.limit
  exact ⟨hread, ((hgiven 2 _).1 hread).2.2, hdecode,
    (hstops _ _ hdecode rfl).resolve_right (by decide)⟩

/-- The number in this type stands behind an array that keeps all the room there is. -/
def endless : Ty := .tuple [.dynArray (.uint 256) Size.limit, .uint 256]

/-- The first slot of this storage holds a length that no buffer can have, and the next one cannot
be read. -/
def swollen : StorageReader := fun address slot =>
  if slot = 1 then .error ⟨address, 1, "Denied"⟩
  else .ok (if slot = 0 then 9223372036854775808 else 0)

/-- The program stops at types that can be written: over storage without a single set slot it cuts
out of too few words, and for bytes of this number there is no buffer, although the first slot of
them would be refused. -/
theorem decode_endless :
    (Ty.parse "(DynArray[uint256, 18446744073709551615], uint256)" = .ok endless ∧
      ∃ fault, decode (.ofStorage (fun _ _ => .ok 0) 1 0) endless 0 = .error fault ∧
        fault.stops = true) ∧
    Ty.parse "Bytes[9223372036854775808]" = .ok (.bytes 9223372036854775808) ∧
      ∃ fault, decode (.ofStorage swollen 1 0) (.bytes 9223372036854775808) 0 = .error fault ∧
        fault.stops = true :=
  ⟨⟨by decide +kernel, .storage (.cut 63 32), by decide +kernel, rfl⟩,
    by decide +kernel, .capacity 9223372036854775808, by decide +kernel, rfl⟩

end EvmInspect.Layout
