import EvmInspect.Proofs.Storage.Dump
/-!
# Variables apart from each other

Every storage variable has a window of slots, and no other slot matters for what a dump says about
it: neither what stands there nor that it cannot be read.  The window of a variable that is no
mapping is where its value is laid out; that of a mapping consists of the places of its entries,
which are known from the slots that were written.  Only where decoding stops at one variable there
is no dump of any.
-/

namespace EvmInspect

namespace Listing

variable {α : Type} {owner name : String} {pairs : List (String × α)} {a : α}

theorem names_ofList (h : (pairs.map Prod.fst).Nodup) :
    (ofList owner pairs).names = pairs.map Prod.fst := by
  rw [names, ofList, Table.keys, Table.entries_ofList h]

theorem get?_ofList (h : (pairs.map Prod.fst).Nodup) :
    (ofList owner pairs).get? name = some a ↔ (name, a) ∈ pairs := by
  rw [get?, ofList, Table.get?, Table.entries_ofList h, Table.lookup_eq_some h]

end Listing

theorem Ty.leafType_eq_self {t : Ty} (h : t.isMapping = false) : t.leafType = t := by
  cases t with
  | mapping key value => simp [isMapping] at h
  | _ => rfl

theorem StorageReader.refusing_of_notMem {read : StorageReader} {slots : List Word}
    {cause : String} {address : Address} {slot : Word} (h : slot ∉ slots) :
    read.refusing slots cause address slot = read address slot := by
  simp [refusing, h]

namespace Recording

/-- The slots that matter for a variable of the type in a slot: those of its value, or those of the
entries whose places were written. -/
inductive Window (r : Recording) (config : Config) (address : Address) (ty : Ty) (root : Nat) :
    Word → Prop
  | value {slot : Word} (hvalue : ty.isMapping = false)
      (hslot : slot ∈ ty.slots (BitVec.ofNat 256 root)) : Window r config address ty root slot
  | entry {slot written : Word} {keys : List (List UInt8)} (hmapping : ty.isMapping = true)
      (hwritten : written ∈ r.writes.slots address)
      (hunwinds : r.Unwinds config root written keys) (hlen : keys.length = ty.keyTypes.length)
      (hslot : slot ∈ ty.leafType.slots written) : Window r config address ty root slot

variable {r : Recording} {other : StorageReader} {config : Config} {address : Address} {ty : Ty}
  {root : Nat} {slot : Word} {path : List (List UInt8)} {x : Reading}

theorem decodeAt_congr (hroom : ty.room ≤ Size.limit)
    (h : ∀ s ∈ ty.slots slot, r.storage address s = other address s) :
    decodeAt { r with storage := other } address ty slot = r.decodeAt address ty slot := by
  rw [decodeAt, decodeAt, Layout.decodeDeclared, Layout.decodeDeclared,
    Layout.decode_ofStorage_congr hroom h]

theorem readValue_congr (hroom : ty.room ≤ Size.limit)
    (h : ∀ s ∈ ty.slots (BitVec.ofNat 256 root), r.storage address s = other address s) :
    readValue { r with storage := other } config address ty root =
      r.readValue config address ty root := by
  rw [readValue, readValue, decodeAt_congr hroom h]

theorem leaf?_congr (hroom : ty.leafType.room ≤ Size.limit)
    (h : ∀ keys, path = bytesOfNat 32 root :: keys → keys.length = ty.keyTypes.length →
      ∀ s ∈ ty.leafType.slots slot, r.storage address s = other address s) :
    leaf? { r with storage := other } config address ty root slot path =
      r.leaf? config address ty root slot path := by
  by_cases hleads : ∃ raw, Leads config ty root path raw
  · obtain ⟨raw, hleads⟩ := hleads
    -- the keys of the leaf do not depend on the storage, only what it shows does
    rw [leaf?_of_leads hleads, leaf?_of_leads hleads,
      decodeAt_congr hroom (h raw hleads.1 hleads.2.1)]
    rfl
  · rw [leaf?_of_not_leads hleads, leaf?_of_not_leads hleads]

theorem readWith_congr (hroom : ty.leafType.room ≤ Size.limit)
    (h : ∀ s, r.Window config address ty root s → r.storage address s = other address s) :
    readWith { r with storage := other } config (r.writtenPaths config address) address ty root =
      r.readWith config (r.writtenPaths config address) address ty root := by
  cases hmapping : ty.isMapping with
  | false =>
    rw [readWith, readWith, hmapping, if_neg (by simp), if_neg (by simp)]
    rw [Ty.leafType_eq_self hmapping] at hroom
    exact readValue_congr hroom fun s hs => h s (.value hmapping hs)
  | true =>
    have hleaf : ∀ p ∈ r.writtenPaths config address,
        leaf? { r with storage := other } config address ty root p.1 p.2 =
          r.leaf? config address ty root p.1 p.2 := by
      intro p hp
      obtain ⟨hwritten, hpath⟩ := mem_writtenPaths.1 hp
      refine leaf?_congr hroom fun keys hkeys hlen s hs => ?_
      have hunwinds : r.Unwinds config root p.1 keys := by rw [Unwinds, hpath, hkeys]
      exact h s (.entry hmapping hwritten hunwinds hlen hs)
    rw [readWith, readWith, hmapping, if_pos rfl, if_pos rfl, readMapping, readMapping,
      mapM_congr hleaf]

theorem not_stops (hroom : ty.room ≤ Size.bufferLimit) : ¬ r.Stops address ty slot := by
  rintro ⟨fault, hfault, hstops⟩
  have hlimit : Size.bufferLimit < Size.limit := by decide
  rcases Layout.room_of_stops (map_eq_error.1 hfault) hstops with hend | hheld
  · omega
  · exact hheld (Layout.Source.held_of_dvd ty.dvd_room hroom)

theorem readWith_ne_none
    (h : isTruncated config ty.leafType = true ∨ ty.leafType.room ≤ Size.bufferLimit) :
    r.readWith config (r.writtenPaths config address) address ty root ≠ none := by
  cases hmapping : ty.isMapping with
  | false =>
    rw [Ty.leafType_eq_self hmapping] at h
    rw [readWith, hmapping, if_neg Bool.false_ne_true, readValue]
    cases htruncated : isTruncated config ty with
    | true => exact Option.some_ne_none _
    | false =>
      rw [if_neg Bool.false_ne_true, ne_eq, ofDecoded_eq_none]
      exact not_stops (h.resolve_left (by simp [htruncated]))
  | true =>
    rw [readWith, hmapping, if_pos rfl, ne_eq, readMapping_writtenPaths_eq_none]
    rintro ⟨k, -, raw, -, -, htruncated, hstops⟩
    exact not_stops (h.resolve_left (by simp [htruncated])) hstops

theorem storageDump_eq_none {c : Contract} :
    r.storageDump config c = none ↔ ∃ p ∈ c.artifact.storageVariables,
      r.readWith config (r.writtenPaths config c.address) c.address p.1.ty p.2 = none := by
  rw [← row_eq_none fun p : Variable × Nat => p.1.name, storageDump]
  cases c.artifact.storageVariables.mapM fun p =>
    (r.readWith config (r.writtenPaths config c.address) c.address p.1.ty p.2).map fun reading =>
      (p.1.name, reading) <;> simp

theorem storageDump_eq_some {c : Contract} {listing : Listing Reading}
    (h : r.storageDump config c = some listing) : ∃ row, listing = .ofList "storage" row ∧
      (c.artifact.storageVariables.mapM fun p =>
        (r.readWith config (r.writtenPaths config c.address) c.address p.1.ty p.2).map
          fun reading => (p.1.name, reading)) = some row := by
  rw [storageDump] at h
  obtain ⟨row, hrow, hlisting⟩ := Option.bind_eq_some_iff.1 h
  exact ⟨row, (Option.some.inj hlisting).symm, hrow⟩

theorem entries_storageDump {c : Contract} {listing : Listing Reading}
    (hnames : (c.artifact.storageVariables.map fun p => p.1.name).Nodup)
    (h : r.storageDump config c = some listing) :
    listing.names = c.artifact.storageVariables.map (fun p => p.1.name) ∧
      ∀ p ∈ c.artifact.storageVariables, ∃ x,
        r.readWith config (r.writtenPaths config c.address) c.address p.1.ty p.2 = some x ∧
          listing.get? p.1.name = some x := by
  obtain ⟨row, rfl, hrow⟩ := storageDump_eq_some h
  have hfst := map_fst_of_row (fun p : Variable × Nat => p.1.name) hrow
  have hnodup : (row.map Prod.fst).Nodup := by rwa [hfst]
  refine ⟨by rw [Listing.names_ofList hnodup, hfst], fun p hp => ?_⟩
  obtain ⟨x, hx⟩ : ∃ x,
      r.readWith config (r.writtenPaths config c.address) c.address p.1.ty p.2 = some x := by
    refine Option.ne_none_iff_exists'.1 fun hnone => ?_
    rw [storageDump_eq_none.2 ⟨p, hp, hnone⟩] at h
    cases h
  exact ⟨x, hx, (Listing.get?_ofList hnodup).2 ((mem_of_row _ hrow).2 ⟨p, hp, rfl, hx⟩)⟩

/-- What a variable shows depends on its window alone: two storages that agree there, whether or not
they can be read, show the same.  A dump has an entry for each variable, in their order, unless the
program stops at one of them, which it does at no type that a buffer can hold. -/
theorem storageDump_contained (r : Recording) (other : StorageReader) (config : Config)
    (c : Contract) (hnames : (c.artifact.storageVariables.map fun p => p.1.name).Nodup) :
    (∀ read : StorageReader,
      (storageDump { r with storage := read } config c = none ↔
        ∃ p ∈ c.artifact.storageVariables, readWith { r with storage := read } config
          (r.writtenPaths config c.address) c.address p.1.ty p.2 = none) ∧
      (∀ listing, storageDump { r with storage := read } config c = some listing →
        listing.names = c.artifact.storageVariables.map (fun p => p.1.name) ∧
        ∀ p ∈ c.artifact.storageVariables, ∃ x, readWith { r with storage := read } config
          (r.writtenPaths config c.address) c.address p.1.ty p.2 = some x ∧
            listing.get? p.1.name = some x) ∧
      ((∀ p ∈ c.artifact.storageVariables, isTruncated config p.1.ty.leafType = true ∨
          p.1.ty.leafType.room ≤ Size.bufferLimit) →
        storageDump { r with storage := read } config c ≠ none)) ∧
    ∀ p ∈ c.artifact.storageVariables, p.1.ty.leafType.room ≤ Size.limit →
      (∀ s, r.Window config c.address p.1.ty p.2 s → r.storage c.address s = other c.address s) →
      readWith { r with storage := other } config (r.writtenPaths config c.address) c.address
          p.1.ty p.2 =
        r.readWith config (r.writtenPaths config c.address) c.address p.1.ty p.2 ∧
      ∀ listing listing', r.storageDump config c = some listing →
        storageDump { r with storage := other } config c = some listing' →
        ∃ x, listing.get? p.1.name = some x ∧ listing'.get? p.1.name = some x := by
  refine ⟨fun read => ⟨storageDump_eq_none, fun listing => entries_storageDump hnames, ?_⟩,
    fun p hp hroom h => ?_⟩
  · intro hread hnone
    obtain ⟨p, hp, hnone⟩ := storageDump_eq_none.1 hnone
    exact readWith_ne_none (hread p hp) hnone
  · have hsame := readWith_congr hroom h
    refine ⟨hsame, fun listing listing' hlisting hlisting' => ?_⟩
    obtain ⟨x, hx, hget⟩ := (entries_storageDump hnames hlisting).2 p hp
    obtain ⟨y, hy, hget'⟩ := (entries_storageDump hnames hlisting').2 p hp
    obtain rfl : x = y := Option.some.inj (hx.symm.trans (hsame.symm.trans hy))
    exact ⟨x, hget, hget'⟩

def vault : Contract where
  artifact := {
    name := "Vault"
    stateVariables := [⟨"balances", .mapping (.uint 256) (.uint 256), .storage 0⟩,
      ⟨"total", .uint 256, .storage 1⟩, ⟨"note", .string 5, .storage 2⟩] }
  address := 1
  code := []

/-- The slot of one value cannot be read; the mapping before it and the value behind it are shown as
if it could. -/
theorem storageDump_vault :
    ∃ listing damaged, twoEntries.storageDump {} vault = some listing ∧
      storageDump { twoEntries with storage := twoEntries.storage.refusing [1] "pruned" } {}
        vault = some damaged ∧
      (∃ x, listing.get? "balances" = some x ∧ damaged.get? "balances" = some x) ∧
      (∃ x, listing.get? "note" = some x ∧ damaged.get? "note" = some x) ∧
      ∃ reason, damaged.get? "total" = some (.invalid reason) := by
  obtain ⟨hdumps, hcontained⟩ := storageDump_contained twoEntries
    (twoEntries.storage.refusing [1] "pruned") {} vault (by decide)
  have hheld : ∀ p ∈ vault.artifact.storageVariables, isTruncated {} p.1.ty.leafType = true ∨
      p.1.ty.leafType.room ≤ Size.bufferLimit := by decide
  obtain ⟨listing, hlisting⟩ := Option.ne_none_iff_exists'.1
    ((hdumps twoEntries.storage).2.2 hheld)
  obtain ⟨damaged, hdamaged⟩ := Option.ne_none_iff_exists'.1
    ((hdumps (twoEntries.storage.refusing [1] "pruned")).2.2 hheld)
  refine ⟨listing, damaged, hlisting, hdamaged, ?_, ?_, ?_⟩
  · refine (hcontained (⟨"balances", .mapping (.uint 256) (.uint 256), .storage 0⟩, 0)
      (by decide) (by decide) fun s hs => (StorageReader.refusing_of_notMem ?_).symm).2 _ _
      hlisting hdamaged
    rcases hs with ⟨hvalue, -⟩ | ⟨-, hwritten, -, -, hslot⟩
    · simp [Ty.isMapping] at hvalue
    · -- an entry is one slot, and two of them were written
      rw [List.mem_singleton.1 hslot]
      rcases List.mem_pair.1 hwritten with rfl | rfl <;> decide
  · refine (hcontained (⟨"note", .string 5, .storage 2⟩, 2) (by decide) (by decide)
      fun s hs => (StorageReader.refusing_of_notMem ?_).symm).2 _ _ hlisting hdamaged
    rcases hs with ⟨-, hslot⟩ | ⟨hmapping, -⟩
    · rcases List.mem_pair.1 hslot with rfl | rfl <;> decide
    · simp [Ty.isMapping] at hmapping
  · obtain ⟨x, hx, hget⟩ := ((hdumps _).2.1 damaged hdamaged).2
      (⟨"total", .uint 256, .storage 1⟩, 1) (by decide)
    cases hx
    exact ⟨_, hget⟩

/-- A contract with bytes that may be more than any buffer holds, and a number behind them. -/
def archive : Contract where
  artifact := {
    name := "Archive"
    stateVariables := [⟨"blob", .bytes 9223372036854775808, .storage 0⟩,
      ⟨"total", .uint 256, .storage 288230376151711745⟩] }
  address := 1
  code := []

/-- One slot is refused and all sizes are addressable, but the length of the bytes is one for which
there is no buffer, and so there is no entry of the number behind them either. -/
theorem storageDump_archive :
    ∃ r : Recording, ∃ config : Config, (∀ slot, slot ≠ 1 → ∃ word, r.storage 1 slot = .ok word) ∧
      (archive.artifact.storageVariables.map fun p => p.1.name).Nodup ∧
      (∀ p ∈ archive.artifact.storageVariables, p.1.ty.room ≤ Size.limit) ∧
      r.readWith config (r.writtenPaths config 1) 1 (.uint 256) 288230376151711745 =
        some (.value ⟨.uint 0 256, .uint 256⟩) ∧
      r.storageDump config archive = none := by
  refine ⟨{ storage := Layout.swollen }, { truncateLimit := none },
    fun slot hslot => ⟨_, if_neg hslot⟩, by decide, by decide, rfl, ?_⟩
  have hdecode : decodeAt { storage := Layout.swollen } 1 (.bytes 9223372036854775808) 0 =
      .error (.capacity 9223372036854775808) := by
    decide +kernel
  refine storageDump_eq_none.2
    ⟨(⟨"blob", .bytes 9223372036854775808, .storage 0⟩, 0), by decide, ?_⟩
  exact ofDecoded_eq_none.2 ⟨_, hdecode, rfl⟩

end Recording

end EvmInspect
