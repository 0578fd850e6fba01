import EvmInspect.Proofs.Layout.Zero
import EvmInspect.Proofs.Storage.Dump
/-!
# Leaves that a dump leaves out

Entries that were deleted or never written hold zeros.  Where a source gives zeros only, a type is
decoded to its zero value if its reach is addressable, and a type in which nothing has a length of
its own is decoded to its zero value from nothing else.  So of the leaves of such a type that are
read, the dump of a mapping leaves out those whose slots are all zero.
-/

namespace EvmInspect

theorem Ty.span_eq_room {t : Ty} (hstatic : t.static = true) : t.span = t.room := by
  have hsum {members : List Ty} (h : ∀ t ∈ members, t.span = t.room) :
      Ty.membersSpan members = Ty.membersRoom members := by
    rw [Ty.membersSpan_eq_sum, Ty.membersRoom_eq_sum, List.map_congr_left h]
  induction t using Ty.memberInduction with
  | uint | int | bool | address | fixedBytes | mapping => rfl
  | bytes | string | dynArray => simp [Ty.static, Ty.everywhere] at hstatic
  | array elem n ih =>
    simp only [Ty.static, Ty.everywhere, Bool.and_eq_true] at hstatic
    rw [Ty.span, Ty.room, ih hstatic.2]
  | tuple members ih =>
    rw [Ty.span, Ty.room]
    exact hsum fun t ht => ih t ht ((Ty.everywhere_tuple hstatic).2 t ht)
  | struct name fields ih =>
    rw [Ty.span, Ty.room, Ty.fieldsSpan_eq, Ty.fieldsRoom_eq]
    exact hsum fun t ht => ih t ht ((Ty.everywhere_struct hstatic).2 t ht)

namespace Layout.Source

variable {read : StorageReader} {address : Address} {base : Word} {size : Nat}

theorem zeroOn_ofStorage (hlimit : size ≤ Size.limit) (hdvd : 32 ∣ size) :
    (ofStorage read address base).ZeroOn 0 size ↔
      ∀ slot ∈ slotsFrom base (size / 32), read address slot = .ok 0 := by
  simp only [slotsFrom, List.forall_mem_map, List.mem_range]
  constructor
  · intro h i hi
    have hbytes := (seamless_ofStorage read address base).read_zeros h (by omega)
      (show 32 * i + 32 ≤ size by omega) (Nat.le_refl _)
    obtain ⟨-, -, hat⟩ := ofStorage_eq_ok.1 hbytes
    -- all bytes of the slot are those of one word
    have hslot : ∀ j < 32, slotOf base (0 + 32 * i + j) = base + BitVec.ofNat 256 i := by
      intro j hj
      rw [slotOf, show (0 + 32 * i + j) / 32 = i by omega]
    obtain ⟨word, hword, -⟩ := hat 0 (by omega)
    rw [hslot 0 (by omega)] at hword
    have hzero : word.toBytes = (0 : Word).toBytes := by
      refine List.ext_getElem? fun j => ?_
      rcases Nat.lt_or_ge j 32 with hj | hj
      · obtain ⟨word', hword', hbyte⟩ := hat j hj
        rw [hslot j hj, hword] at hword'
        cases hword'
        rw [show (0 + 32 * i + j) % 32 = j by omega] at hbyte
        rw [← hbyte, Word.toBytes_zero]
      · rw [List.getElem?_eq_none (by simpa using hj), List.getElem?_eq_none (by simpa using hj)]
    rw [hword, Word.toBytes_inj hzero]
  · intro h i hi
    refine ofStorage_eq_ok.2 ⟨.inr ⟨by omega, held_of_le_word (by decide)⟩, rfl, fun j hj => ?_⟩
    obtain rfl : j = 0 := by omega
    refine ⟨0, h ((0 + i + 0) / 32) (by omega), ?_⟩
    rw [Word.toBytes_zero, List.getElem?_replicate_of_lt (Nat.mod_lt _ (by decide))]
    rfl

end Layout.Source

namespace Recording

variable {r : Recording} {config : Config} {address : Address} {ty leafType : Ty} {root : Nat}
  {slot : Word} {raw : List (List UInt8)} {keys : List Key}

theorem leaf?_eq_some_none_iff (hkeys : r.keyPath? ty raw = some (keys, leafType))
    (htruncated : isTruncated config leafType = false) :
    r.leaf? config address ty root slot (bytesOfNat 32 root :: raw) = some none ↔
      ∃ v, Layout.decode (.ofStorage r.storage address slot) leafType 0 = .ok v ∧
        v.isZero = true := by
  obtain ⟨hlen, -, rfl⟩ := keyPath?_eq_some.1 hkeys
  rw [leaf?_of_leads ⟨rfl, hlen, htruncated⟩, decodeAt, Layout.decodeDeclared]
  cases Layout.decode (.ofStorage r.storage address slot) ty.leafType 0 with
  | error fault =>
    cases hstops : fault.stops <;>
      simp [Except.map, Reading.ofDecoded, hstops, Reading.isZero]
  | ok v =>
    cases hzero : v.isZero <;>
      simp [Except.map, Reading.ofDecoded, Reading.isZero, Declared.isZero, hzero]

theorem leaf?_eq_some_none_iff_zero (hkeys : r.keyPath? ty raw = some (keys, leafType))
    (htruncated : isTruncated config leafType = false) (hstatic : leafType.static = true)
    (hfree : leafType.mappingFree = true) (hroom : leafType.room ≤ Size.limit) :
    r.leaf? config address ty root slot (bytesOfNat 32 root :: raw) = some none ↔
      ∀ s ∈ leafType.slots slot, r.storage address s = .ok 0 := by
  have hsrc := Layout.Source.seamless_ofStorage r.storage address slot
  have hsize := Ty.layoutSize_eq_room hroom
  have hreach : 0 + leafType.reach ≤ Size.limit := by
    have hspan := leafType.reach_le_span
    rw [Ty.span_eq_room hstatic] at hspan
    omega
  rw [leaf?_eq_some_none_iff hkeys htruncated, Ty.slots, hsize,
    ← Layout.Source.zeroOn_ofStorage hroom leafType.dvd_room, ← hsize]
  constructor
  · rintro ⟨v, hv, hzero⟩
    exact Layout.fromZeros hsrc hstatic (Nat.zero_le _) hv hzero
  · intro hzero
    exact Layout.zeroDecodes hsrc hfree hzero hreach

/-- Zero is told from everything else.  A source is a row of bytes.  Over zeros a type without
mappings is decoded to its zero value just if its reach is addressable, and a type in which nothing
has a length of its own is decoded to its zero value from nothing but zeros.  So the dump of a
mapping leaves out those leaves of such a type that are too large to be read and those whose slots
are all zero. -/
theorem zero_exact :
    (∀ data, (Layout.Source.ofBytes data).Seamless) ∧
    (∀ image, (Layout.Source.ofMemory image).Seamless) ∧
    (∀ read address base, (Layout.Source.ofStorage read address base).Seamless) ∧
    (∀ (src : Layout.Source) (t : Ty) (offset : Nat), src.Seamless → offset ≤ Size.limit →
      (t.mappingFree = true → src.ZeroOn offset t.layoutSize →
        ((∃ v, Layout.decode src t offset = .ok v ∧ v.isZero = true) ↔
          offset + t.reach ≤ Size.limit)) ∧
      (t.static = true → ∀ v, Layout.decode src t offset = .ok v → v.isZero = true →
        src.ZeroOn offset t.layoutSize)) ∧
    ∀ (r : Recording) (config : Config) (address : Address) (ty leafType : Ty) (root : Nat)
      (slot : Word) (raw : List (List UInt8)) (keys : List Key),
      r.keyPath? ty raw = some (keys, leafType) → leafType.static = true →
      leafType.mappingFree = true → leafType.room ≤ Size.limit →
      (r.leaf? config address ty root slot (bytesOfNat 32 root :: raw) = some none ↔
        isTruncated config leafType = true ∨
          ∀ s ∈ leafType.slots slot, r.storage address s = .ok 0) := by
  refine ⟨Layout.Source.seamless_ofBytes, Layout.Source.seamless_ofMemory,
    Layout.Source.seamless_ofStorage, fun src t offset hsrc hoffset => ⟨?_, ?_⟩, ?_⟩
  · intro hfree hzero
    exact Layout.exists_zero_iff hsrc hfree hoffset hzero
  · intro hstatic v hv hzero
    exact Layout.fromZeros hsrc hstatic hoffset hv hzero
  · intro r config address ty leafType root slot raw keys hkeys hstatic hfree hroom
    cases htruncated : isTruncated config leafType with
    | true => simp [leaf?, hkeys, htruncated]
    | false =>
      rw [leaf?_eq_some_none_iff_zero hkeys htruncated hstatic hfree hroom]
      simp

/-- Memory that was never written holds an empty text and zeros, and of two entries the one whose
slot holds zero is left out. -/
theorem zero_exact_twoEntries :
    (∃ v, Layout.decode (.ofMemory []) (.tuple [.string 8, .array (.uint 8) 2]) 5 = .ok v ∧
      v.isZero = true) ∧
    (Layout.Source.ofBytes (List.replicate 64 0)).ZeroOn 0 (Ty.array .bool 2).layoutSize ∧
    twoEntries.leaf? {} 1 (.mapping (.uint 256) (.uint 256)) 0 200
      [bytesOfNat 32 0, bytesOfNat 32 9] = some none ∧
    twoEntries.leaf? {} 1 (.mapping (.uint 256) (.uint 256)) 0 100
      [bytesOfNat 32 0, bytesOfNat 32 7] ≠ some none := by
  obtain ⟨hbytes, hmemory, -, hdecode, hleaf⟩ := zero_exact
  have hslot (slot : Word) : (Ty.uint 256).slots slot = [slot] := by
    exact congrArg (fun s => [s]) (BitVec.add_zero slot)
  refine ⟨?_, ?_, ?_, ?_⟩
  · refine ((hdecode (.ofMemory []) _ 5 (hmemory []) (by decide)).1 (by decide) ?_).2 (by decide)
    intro i _
    simp [Layout.Source.ofMemory, Size.bufferLimit]
  · exact (hdecode (.ofBytes (List.replicate 64 0)) _ 0 (hbytes _) (by decide)).2 (by decide)
      (.fixedArray [.bool false, .bool false]) (by decide +kernel) (by decide)
  · have hkeys : twoEntries.keyPath? (.mapping (.uint 256) (.uint 256)) [bytesOfNat 32 9] =
        some (_, .uint 256) := keyPath?_eq_some.2 ⟨rfl, rfl, rfl⟩
    refine (hleaf twoEntries {} 1 _ _ 0 200 _ _ hkeys rfl rfl (by decide)).2 (.inr ?_)
    rw [hslot, List.forall_mem_singleton]
    decide
  · have hkeys : twoEntries.keyPath? (.mapping (.uint 256) (.uint 256)) [bytesOfNat 32 7] =
        some (_, .uint 256) := keyPath?_eq_some.2 ⟨rfl, rfl, rfl⟩
    rw [ne_eq, hleaf twoEntries {} 1 _ _ 0 100 _ _ hkeys rfl rfl (by decide), hslot,
      List.forall_mem_singleton]
    decide

/-- Over zeros nothing is decoded of a type that reaches too far, and an entry that is too large to
be read is left out although its slots are not zero. -/
theorem zero_unread :
    Layout.endless.mappingFree = true ∧
    (Layout.Source.ofMemory []).ZeroOn 0 Layout.endless.layoutSize ∧
    Layout.decode (.ofMemory []) Layout.endless 0 = .error (.outOfBounds Size.limit 32 0) ∧
    twoEntries.storage 1 100 = .ok 5 ∧
    twoEntries.leaf? {} 1 (.mapping (.uint 256) (.array (.uint 256) 33)) 0 100
      [bytesOfNat 32 0, bytesOfNat 32 7] = some none := by
  refine ⟨by decide, fun i _ => ?_, by decide +kernel, by decide, leaf?_of_not_leads ?_⟩
  · simp [Layout.Source.ofMemory, Size.bufferLimit]
  · rintro ⟨raw, -, -, htruncated⟩
    exact absurd htruncated (by decide)

end Recording

end EvmInspect
