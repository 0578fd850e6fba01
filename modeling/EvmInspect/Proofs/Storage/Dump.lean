import EvmInspect.Storage.Dump
import EvmInspect.Proofs.Layout.Storage
import EvmInspect.Proofs.Storage.Leaves
/-!
# Dumps of mappings

The leaves of a dumped mapping are those of the written slots that unwind to the mapping's own slot
by as many keys as it takes: one leaf a slot, unless what stands there is zero or too large to be
read.  Where decoding stops at one of these slots there is no dump.
-/

namespace EvmInspect

namespace Ty

/-- Types of the keys that lead through nested mappings. -/
def keyTypes : Ty → List Ty
  | .mapping key value => key :: value.keyTypes
  | _ => []

def leafType : Ty → Ty
  | .mapping _ value => value.leafType
  | t => t

theorem exists_length_keyTypes {ty : Ty} (h : ty.isMapping = true) :
    ∃ n, ty.keyTypes.length = n + 1 := by
  cases ty <;> simp [isMapping, keyTypes] at h ⊢

end Ty

namespace Recording

/-- The slot unwinds to the slot at the root and some keys. -/
def Unwinds (r : Recording) (config : Config) (root : Nat) (slot : Word)
    (keys : List (List UInt8)) : Prop :=
  Storage.path r.preimages slot config.maxDepth = .ok (bytesOfNat 32 root :: keys)

def Stops (r : Recording) (address : Address) (ty : Ty) (slot : Word) : Prop :=
  ∃ fault, r.decodeAt address ty slot = .error fault ∧ fault.stops = true

/-- What a slot shows for a type: a value that is not zero, or why there is none. -/
inductive Shows (r : Recording) (address : Address) (ty : Ty) (slot : Word) : Reading → Prop
  | value {v : Declared} (hdecode : r.decodeAt address ty slot = .ok v) (hzero : v.isZero = false) :
      Shows r address ty slot (.value v)
  | invalid {fault : Layout.Fault} (hdecode : r.decodeAt address ty slot = .error fault)
      (hreported : fault.stops = false) : Shows r address ty slot (.invalid fault.message)

def decodeKeys (r : Recording) (ty : Ty) (keys : List (List UInt8)) : List Key :=
  List.zipWith r.key ty.keyTypes keys

theorem keyPath?_eq_some {r : Recording} {ty leafType : Ty} {keys : List (List UInt8)}
    {path : List Key} :
    r.keyPath? ty keys = some (path, leafType) ↔
      keys.length = ty.keyTypes.length ∧ path = r.decodeKeys ty keys ∧ leafType = ty.leafType := by
  unfold decodeKeys
  induction keys generalizing ty path with
  | nil => cases ty <;> simp [keyPath?, Ty.keyTypes, Ty.leafType, eq_comm]
  | cons bytes keys ih =>
    cases ty with
    | mapping keyType valueType =>
      simp only [keyPath?, Ty.keyTypes, Ty.leafType, Option.map_eq_some_iff, Prod.exists,
        Prod.mk.injEq, List.length_cons, Nat.succ.injEq, List.zipWith_cons_cons]
      constructor
      · rintro ⟨rest, t, h, rfl, rfl⟩
        obtain ⟨hlen, rfl, rfl⟩ := ih.1 h
        exact ⟨hlen, rfl, rfl⟩
      · rintro ⟨hlen, rfl, rfl⟩
        exact ⟨_, _, ih.2 ⟨hlen, rfl, rfl⟩, rfl, rfl⟩
    | uint | int | bool | address | fixedBytes | bytes | string | array | dynArray | tuple
    | struct => simp [keyPath?, Ty.keyTypes]

theorem ofDecoded_eq_none {decoded : Except Layout.Fault Declared} :
    Reading.ofDecoded decoded = none ↔
      ∃ fault, decoded = .error fault ∧ fault.stops = true := by
  cases decoded with
  | ok v => simp [Reading.ofDecoded]
  | error fault => cases hstops : fault.stops <;> simp [Reading.ofDecoded, hstops]

theorem ofDecoded_eq_some {decoded : Except Layout.Fault Declared} {x : Reading} :
    Reading.ofDecoded decoded = some x ↔
      (∃ v, decoded = .ok v ∧ .value v = x) ∨
        ∃ fault, decoded = .error fault ∧ fault.stops = false ∧ .invalid fault.message = x := by
  cases decoded with
  | ok v => simp [Reading.ofDecoded]
  | error fault => cases hstops : fault.stops <;> simp [Reading.ofDecoded, hstops]

theorem isMapping_eq_false_of_shows {r : Recording} {address : Address} {ty : Ty} {slot : Word}
    {x : Reading} (h : r.Shows address ty slot x) : x.isMapping = false := by
  cases h <;> rfl

theorem shows_iff {r : Recording} {address : Address} {ty : Ty} {slot : Word} {x : Reading} :
    r.Shows address ty slot x ↔
      Reading.ofDecoded (r.decodeAt address ty slot) = some x ∧ x.isZero = false := by
  rw [ofDecoded_eq_some]
  constructor
  · intro h
    cases h with
    | value hdecode hzero => exact ⟨.inl ⟨_, hdecode, rfl⟩, hzero⟩
    | invalid hdecode hreported => exact ⟨.inr ⟨_, hdecode, hreported, rfl⟩, rfl⟩
  · rintro ⟨⟨v, hdecode, rfl⟩ | ⟨fault, hdecode, hreported, rfl⟩, hzero⟩
    · exact .value hdecode hzero
    · exact .invalid hdecode hreported

theorem Shows.unique {r : Recording} {address : Address} {ty : Ty} {slot : Word} {x y : Reading}
    (hx : r.Shows address ty slot x) (hy : r.Shows address ty slot y) : x = y :=
  Option.some.inj ((shows_iff.1 hx).1.symm.trans (shows_iff.1 hy).1)

/-- The path leads from the root through as many keys as the mapping takes to a leaf that is not too
large to be read. -/
def Leads (config : Config) (ty : Ty) (root : Nat) (path raw : List (List UInt8)) : Prop :=
  path = bytesOfNat 32 root :: raw ∧ raw.length = ty.keyTypes.length ∧
    isTruncated config ty.leafType = false

section

variable {r : Recording} {config : Config} {address : Address} {ty : Ty} {root : Nat} {slot : Word}
  {path raw : List (List UInt8)}

theorem Leads.unique {other : List (List UInt8)} (h : Leads config ty root path raw)
    (h' : Leads config ty root path other) : raw = other :=
  (List.cons.inj (h.1.symm.trans h'.1)).2

theorem leaf?_of_leads (h : Leads config ty root path raw) :
    r.leaf? config address ty root slot path =
      (Reading.ofDecoded (r.decodeAt address ty.leafType slot)).map fun x =>
        if x.isZero then none else some (r.decodeKeys ty raw, x) := by
  obtain ⟨rfl, hlen, htruncated⟩ := h
  simp only [leaf?, if_true, keyPath?_eq_some.2 ⟨hlen, rfl, rfl⟩, htruncated, Bool.false_eq_true,
    if_false]

theorem leaf?_of_not_leads (h : ¬∃ raw, Leads config ty root path raw) :
    r.leaf? config address ty root slot path = some none := by
  unfold leaf?
  split
  · rfl
  · rename_i first raw
    split
    · rename_i hroot
      split
      · rfl
      · rename_i hkeys
        obtain ⟨hlen, rfl, rfl⟩ := keyPath?_eq_some.1 hkeys
        cases htruncated : isTruncated config ty.leafType with
        | true => rfl
        | false => exact absurd ⟨raw, by rw [hroot], hlen, htruncated⟩ h
    · rfl

theorem leaf?_eq_some {keys : List Key} {x : Reading} :
    r.leaf? config address ty root slot path = some (some (keys, x)) ↔
      ∃ raw, Leads config ty root path raw ∧ keys = r.decodeKeys ty raw ∧
        r.Shows address ty.leafType slot x := by
  by_cases h : ∃ raw, Leads config ty root path raw
  · obtain ⟨raw, h⟩ := h
    rw [leaf?_of_leads h, Option.map_eq_some_iff]
    constructor
    · rintro ⟨y, hy, heq⟩
      split at heq
      · cases heq
      · rename_i hzero
        cases heq
        exact ⟨raw, h, rfl, shows_iff.2 ⟨hy, eq_false_of_ne_true hzero⟩⟩
    · rintro ⟨raw', h', rfl, hshows⟩
      obtain rfl := h.unique h'
      obtain ⟨hx, hzero⟩ := shows_iff.1 hshows
      exact ⟨x, hx, if_neg (by rw [hzero]; exact Bool.false_ne_true)⟩
  · rw [leaf?_of_not_leads h]
    refine iff_of_false nofun ?_
    rintro ⟨raw, hraw, -⟩
    exact h ⟨raw, hraw⟩

theorem leaf?_eq_none :
    r.leaf? config address ty root slot path = none ↔
      (∃ raw, Leads config ty root path raw) ∧ r.Stops address ty.leafType slot := by
  by_cases h : ∃ raw, Leads config ty root path raw
  · obtain ⟨raw, h⟩ := h
    rw [leaf?_of_leads h, Option.map_eq_none_iff, ofDecoded_eq_none]
    exact (and_iff_right ⟨raw, h⟩).symm
  · rw [leaf?_of_not_leads h]
    exact iff_of_false nofun fun hstops => h hstops.1

end

/-! ## The leaves of a dump -/

theorem mem_writtenPaths {r : Recording} {config : Config} {address : Address} {slot : Word}
    {path : List (List UInt8)} :
    (slot, path) ∈ r.writtenPaths config address ↔
      slot ∈ r.writes.slots address ∧
        Storage.path r.preimages slot config.maxDepth = .ok path := by
  simp only [writtenPaths, List.mem_filterMap]
  constructor
  · rintro ⟨slot', hslot, h⟩
    split at h
    · rename_i hpath
      simp only [Option.some.injEq, Prod.mk.injEq] at h
      obtain ⟨rfl, rfl⟩ := h
      exact ⟨hslot, hpath⟩
    · simp at h
  · rintro ⟨hslot, hpath⟩
    exact ⟨slot, hslot, by rw [hpath]⟩

theorem readMapping_eq_none {r : Recording} {config : Config}
    {paths : List (Word × List (List UInt8))} {address : Address} {ty : Ty} {slot : Nat} :
    r.readMapping config paths address ty slot = none ↔
      ∃ p ∈ paths, r.leaf? config address ty slot p.1 p.2 = none := by
  rw [readMapping, ← mapM_eq_none]
  cases paths.mapM fun p => r.leaf? config address ty slot p.1 p.2 <;> simp

theorem length_decodeKeys {r : Recording} {ty : Ty} {raw : List (List UInt8)}
    (h : raw.length = ty.keyTypes.length) : (r.decodeKeys ty raw).length = ty.keyTypes.length := by
  rw [decodeKeys, List.length_zipWith, h, Nat.min_self]

/-- What the written slots of a mapping yield, in their order. -/
def yielded (r : Recording) (config : Config) (address : Address) (ty : Ty) (slot : Nat) :
    List (List Key × Reading) :=
  (r.writtenPaths config address).filterMap fun p =>
    (r.leaf? config address ty slot p.1 p.2).join

section

variable {r : Recording} {config : Config} {address : Address} {ty : Ty} {slot : Nat}

theorem mem_yielded {keys : List Key} {x : Reading} :
    (keys, x) ∈ r.yielded config address ty slot ↔
      ∃ k ∈ r.writes.slots address, ∃ raw, r.Unwinds config slot k raw ∧
        raw.length = ty.keyTypes.length ∧ keys = r.decodeKeys ty raw ∧
        isTruncated config ty.leafType = false ∧ r.Shows address ty.leafType k x := by
  simp only [yielded, List.mem_filterMap, Option.join_eq_some_iff]
  constructor
  · rintro ⟨⟨k, path⟩, hp, hleaf⟩
    obtain ⟨hk, hpath⟩ := mem_writtenPaths.1 hp
    obtain ⟨raw, ⟨rfl, hlen, htruncated⟩, hkeys, hshows⟩ := leaf?_eq_some.1 hleaf
    exact ⟨k, hk, raw, hpath, hlen, hkeys, htruncated, hshows⟩
  · rintro ⟨k, hk, raw, hpath, hlen, hkeys, htruncated, hshows⟩
    exact ⟨(k, _), mem_writtenPaths.2 ⟨hk, hpath⟩,
      leaf?_eq_some.2 ⟨raw, ⟨rfl, hlen, htruncated⟩, hkeys, hshows⟩⟩

theorem isMapping_of_mem_yielded {l : List Key × Reading}
    (h : l ∈ r.yielded config address ty slot) : l.2.isMapping = false := by
  obtain ⟨k, -, raw, -, -, -, -, hshows⟩ := mem_yielded.1 h
  exact isMapping_eq_false_of_shows hshows

theorem length_of_mem_yielded {l : List Key × Reading}
    (h : l ∈ r.yielded config address ty slot) : l.1.length = ty.keyTypes.length := by
  obtain ⟨k, -, raw, -, hraw, hdecode, -⟩ := mem_yielded.1 h
  rw [hdecode, length_decodeKeys hraw]

theorem readMapping_writtenPaths_eq_some {x : Reading}
    (h : r.readMapping config (r.writtenPaths config address) address ty slot = some x) :
    x = .mapping (Entries.insertAll (r.yielded config address ty slot) []) := by
  rw [readMapping] at h
  cases hleaves : (r.writtenPaths config address).mapM fun p =>
      r.leaf? config address ty slot p.1 p.2 with
  | none => simp [hleaves] at h
  | some leaves =>
    simp only [hleaves, Option.bind_eq_bind, Option.bind_some, filterMap_of_mapM hleaves] at h
    exact (Option.some.inj h).symm

theorem readMapping_writtenPaths_eq_none :
    r.readMapping config (r.writtenPaths config address) address ty slot = none ↔
      ∃ k ∈ r.writes.slots address, ∃ raw, r.Unwinds config slot k raw ∧
        raw.length = ty.keyTypes.length ∧ isTruncated config ty.leafType = false ∧
        r.Stops address ty.leafType k := by
  rw [readMapping_eq_none]
  constructor
  · rintro ⟨⟨k, path⟩, hp, hnone⟩
    obtain ⟨hk, hpath⟩ := mem_writtenPaths.1 hp
    obtain ⟨⟨raw, rfl, hlen, htruncated⟩, hstops⟩ := leaf?_eq_none.1 hnone
    exact ⟨k, hk, raw, hpath, hlen, htruncated, hstops⟩
  · rintro ⟨k, hk, raw, hpath, hlen, htruncated, hstops⟩
    exact ⟨(k, _), mem_writtenPaths.2 ⟨hk, hpath⟩,
      leaf?_eq_none.2 ⟨⟨raw, rfl, hlen, htruncated⟩, hstops⟩⟩

end

/-- A mapping is dumped exactly.  The program stops just if it does so at a written slot of the
mapping's own that is derived from as many keys as it takes.  Otherwise, provided that different
written slots are those of different decoded keys, the leaves are what these slots show, and each of
them occurs once. -/
theorem mem_leaves_readWith (r : Recording) (config : Config) (address : Address) (ty : Ty)
    (slot : Nat) (hmapping : ty.isMapping = true)
    (hkeys : ∀ k ∈ r.writes.slots address, ∀ l ∈ r.writes.slots address, ∀ raw raw',
      r.Unwinds config slot k raw → r.Unwinds config slot l raw' →
      raw.length = ty.keyTypes.length → raw'.length = ty.keyTypes.length →
      r.decodeKeys ty raw = r.decodeKeys ty raw' → k = l) :
    (r.readWith config (r.writtenPaths config address) address ty slot = none ↔
      ∃ k ∈ r.writes.slots address, ∃ raw, r.Unwinds config slot k raw ∧
        raw.length = ty.keyTypes.length ∧ isTruncated config ty.leafType = false ∧
        r.Stops address ty.leafType k) ∧
    ∀ tree, r.readWith config (r.writtenPaths config address) address ty slot = some tree →
      ∃ entries, tree = .mapping entries ∧
        (∀ keys x, (keys, x) ∈ (Reading.mapping entries).leaves ↔
          ∃ k ∈ r.writes.slots address, ∃ raw, r.Unwinds config slot k raw ∧
            raw.length = ty.keyTypes.length ∧ keys = r.decodeKeys ty raw ∧
            isTruncated config ty.leafType = false ∧ r.Shows address ty.leafType k x) ∧
        ((Reading.mapping entries).leaves.map Prod.fst).Nodup := by
  rw [readWith, if_pos hmapping]
  refine ⟨readMapping_writtenPaths_eq_none, fun tree htree => ?_⟩
  obtain ⟨n, hdepth⟩ := Ty.exists_length_keyTypes hmapping
  have hempty : Reading.Layered (n + 1) (.mapping []) := by simp [Reading.Layered]
  have hleaf : ∀ l ∈ r.yielded config address ty slot, l.2.isMapping = false :=
    fun _ => isMapping_of_mem_yielded
  have hlen : ∀ l ∈ r.yielded config address ty slot, l.1.length = n + 1 :=
    fun _ hl => (length_of_mem_yielded hl).trans hdepth
  have hpath : ∀ l ∈ r.yielded config address ty slot, ∀ m ∈ r.yielded config address ty slot,
      l.1 = m.1 → l = m := by
    rintro ⟨keys, x⟩ hl ⟨keys', y⟩ hm heq
    obtain ⟨k, hk, raw, hunwind, hraw, hdecode, -, hx⟩ := mem_yielded.1 hl
    obtain ⟨l, hl, raw', hunwind', hraw', hdecode', -, hy⟩ := mem_yielded.1 hm
    have hsame := hkeys k hk l hl raw raw' hunwind hunwind' hraw hraw'
      (hdecode.symm.trans (heq.trans hdecode'))
    rw [← hsame] at hy
    exact Prod.ext heq (hx.unique hy)
  refine ⟨_, readMapping_writtenPaths_eq_some htree, ?_, ?_⟩
  · intro keys x
    rw [Reading.leaves, Entries.mem_entryLeaves_insertAll hleaf hlen hpath hempty, mem_yielded]
    simp [Reading.entryLeaves]
  · exact (Entries.layered_insertAll hleaf hlen hempty).nodup_paths

/-- Two written slots of a mapping in slot 0: that of the key 7 holds 5, and that of the key 9 holds
zero. -/
def twoEntries : Recording where
  storage := Cells.reader (Table.ofList [((1, 100), 5)])
  preimages := (Preimages.note {} 100 (bytesOfNat 32 0 ++ bytesOfNat 32 7)).note 200
    (bytesOfNat 32 0 ++ bytesOfNat 32 9)
  writes := (WriteLog.record {} 1 100).record 1 200

section

variable {storage : StorageReader} {limit : Option Nat}

theorem keys_of_unwinds_twoEntries {k : Word} {raw : List (List UInt8)}
    (hk : k ∈ twoEntries.writes.slots 1)
    (h : Unwinds { twoEntries with storage } { truncateLimit := limit } 0 k raw) :
    k = 100 ∧ raw = [bytesOfNat 32 7] ∨ k = 200 ∧ raw = [bytesOfNat 32 9] := by
  have hslots : twoEntries.writes.slots 1 = [100, 200] := by decide
  rw [hslots] at hk
  rcases List.mem_pair.1 hk with rfl | rfl
  · exact .inl ⟨rfl, by cases h; rfl⟩
  · exact .inr ⟨rfl, by cases h; rfl⟩

theorem distinct_keys_twoEntries (k : Word) (hk : k ∈ twoEntries.writes.slots 1) (l : Word)
    (hl : l ∈ twoEntries.writes.slots 1) (raw raw' : List (List UInt8))
    (hraw : Unwinds { twoEntries with storage } { truncateLimit := limit } 0 k raw)
    (hraw' : Unwinds { twoEntries with storage } { truncateLimit := limit } 0 l raw')
    (heq : List.zipWith twoEntries.key [.uint 256] raw =
      List.zipWith twoEntries.key [.uint 256] raw') : k = l := by
  rcases keys_of_unwinds_twoEntries hk hraw with ⟨rfl, rfl⟩ | ⟨rfl, rfl⟩ <;>
    rcases keys_of_unwinds_twoEntries hl hraw' with ⟨rfl, rfl⟩ | ⟨rfl, rfl⟩
  · rfl
  · exact absurd heq (by decide +kernel)
  · exact absurd heq (by decide +kernel)
  · rfl

end

/-- Of the two entries the one that is not zero is a leaf. -/
theorem mem_leaves_twoEntries :
    ∃ tree, twoEntries.readWith {} (twoEntries.writtenPaths {} 1) 1
        (.mapping (.uint 256) (.uint 256)) 0 = some tree ∧
      ([Key.value ⟨.uint 7 256, .uint 256⟩], Reading.value ⟨.uint 5 256, .uint 256⟩) ∈
        tree.leaves := by
  obtain ⟨-, hsome⟩ :=
    mem_leaves_readWith twoEntries {} 1 (.mapping (.uint 256) (.uint 256)) 0 rfl
      fun k hk l hl raw raw' hraw hraw' _ _ heq =>
        distinct_keys_twoEntries k hk l hl raw raw' hraw hraw' heq
  have hreturns : (twoEntries.readWith {} (twoEntries.writtenPaths {} 1) 1
      (.mapping (.uint 256) (.uint 256)) 0).isSome = true := by decide +kernel
  obtain ⟨tree, htree⟩ := Option.isSome_iff_exists.1 hreturns
  obtain ⟨entries, rfl, hmem, -⟩ := hsome tree htree
  refine ⟨_, htree, (hmem _ _).2 ⟨100, by decide, [bytesOfNat 32 7], rfl, rfl, by decide +kernel,
    rfl, .value (by decide +kernel) rfl⟩⟩

/-- Storage in which the array behind the key 9 has a length that no type allows. -/
def overlong : StorageReader := Cells.reader (Table.ofList [((1, 200), 18446744073709551616)])

/-- Although the entry of the key 9 has something to show, there is no dump of it: the program stops
at the entry of the key 7. -/
theorem readWith_endless :
    ∃ r : Recording, ∃ config : Config, ∃ ty : Ty, ty.isMapping = true ∧
      (∀ k ∈ r.writes.slots 1, ∀ l ∈ r.writes.slots 1, ∀ raw raw',
        r.Unwinds config 0 k raw → r.Unwinds config 0 l raw' →
        raw.length = ty.keyTypes.length → raw'.length = ty.keyTypes.length →
        r.decodeKeys ty raw = r.decodeKeys ty raw' → k = l) ∧
      200 ∈ r.writes.slots 1 ∧ r.Unwinds config 0 200 [bytesOfNat 32 9] ∧
      isTruncated config ty.leafType = false ∧
      (∃ reason, r.Shows 1 ty.leafType 200 (.invalid reason)) ∧
      r.readWith config (r.writtenPaths config 1) 1 ty 0 = none := by
  refine ⟨{ twoEntries with storage := overlong }, { truncateLimit := none },
    .mapping (.uint 256) Layout.endless, rfl, fun k hk l hl raw raw' hraw hraw' _ _ heq => ?_,
    by decide, rfl, rfl, ?_, ?_⟩
  · exact distinct_keys_twoEntries k hk l hl raw raw' hraw hraw' heq
  · have hdecode : decodeAt { twoEntries with storage := overlong } 1 Layout.endless 200 =
        .error (.lengthExceeded (.dynArray (.uint 256) Size.limit) 18446744073709551616) := by
      decide +kernel
    exact ⟨_, .invalid hdecode rfl⟩
  · have hdecode : decodeAt { twoEntries with storage := overlong } 1 Layout.endless 100 =
        .error (.storage (.cut 63 32)) := by decide +kernel
    have hmapping : (Ty.mapping (.uint 256) Layout.endless).isMapping = true := rfl
    rw [readWith, if_pos hmapping, readMapping_writtenPaths_eq_none]
    exact ⟨100, by decide, [bytesOfNat 32 7], rfl, rfl, rfl, _, hdecode, rfl⟩

end Recording

end EvmInspect
