import EvmInspect.Proofs.Storage.Containment
import EvmInspect.Proofs.Storage.Recorded
/-!
# Labels of keys

A dumped mapping shows keys as values, as bytes or, for addresses, by their names.  Values and bytes
tell keys of one word apart; a name does not if several addresses have it.  Entries whose keys
differ in nothing else share a place in the dump, where the last of them is shown.  All other
entries are shown, each in a place of its own, as long as no entry stops the program.
-/

namespace EvmInspect.Recording

variable {r : Recording} {config : Config} {address : Address} {ty : Ty} {root : Nat}
  {slot other : Word} {keys keys' : List (List UInt8)} {x : Reading}

/-! ## One key -/

/-- What stands for the bytes of a key. -/
inductive Labelled (r : Recording) : Ty → List UInt8 → Key → Prop
  | raw {ty : Ty} {bytes : List UInt8} : Labelled r ty bytes (.raw bytes)
  | value {ty : Ty} {bytes : List UInt8} {v : Value} (hword : ty.isWord = true)
      (hlaid : Layout.Laid ty v bytes) : Labelled r ty bytes (.value ⟨v, ty⟩)
  | name {a : Address} {name : String} (hname : r.aliases.get? a = some name) :
      Labelled r .address a.toWord.toBytes (.label name)

/-- The keys are the same, or those of two addresses that have one name. -/
inductive Alike (r : Recording) : Ty → List UInt8 → List UInt8 → Prop
  | same {ty : Ty} {bytes : List UInt8} : Alike r ty bytes bytes
  | named {a b : Address} {name : String} (ha : r.aliases.get? a = some name)
      (hb : r.aliases.get? b = some name) : Alike r .address a.toWord.toBytes b.toWord.toBytes

theorem of_laid_address {a : Address} {bytes : List UInt8}
    (h : Layout.Laid ty (.address a) bytes) : ty = .address ∧ bytes = a.toWord.toBytes := by
  cases ty <;> simp only [Layout.Laid] at h
  exact ⟨rfl, by rw [h, Address.toBytes_toWord]⟩

theorem labelled_key {bytes : List UInt8} (hlen : bytes.length = 32) :
    r.Labelled ty bytes (r.key ty bytes) := by
  by_cases hword : ty.isWord = true
  · cases hdecode : Layout.decode (.ofBytes bytes) ty 0 with
    | error fault =>
      have hkey : r.key ty bytes = .raw bytes := by simp only [key, hword, if_true, hdecode]
      rw [hkey]
      exact .raw
    | ok v =>
      have hlaid : Layout.Laid ty v bytes := by
        obtain ⟨word, hread, hlaid⟩ := Layout.laid_of_decode_word hword hdecode
        have hbytes := (Layout.wordAt_ofBytes_eq_ok.1 hread).2
        rw [List.drop_zero, List.take_of_length_le (by omega)] at hbytes
        rwa [hbytes] at hlaid
      by_cases hname : ∃ a name, v = .address a ∧ r.aliases.get? a = some name
      · obtain ⟨a, name, rfl, hname⟩ := hname
        have hkey : r.key ty bytes = .label name := by
          simp only [key, hword, if_true, hdecode, hname]
        obtain ⟨hty, hbytes⟩ := of_laid_address hlaid
        rw [hkey, hty, hbytes]
        exact .name hname
      · have hkey : r.key ty bytes = .value ⟨v, ty⟩ := by
          simp only [key, hword, if_true, hdecode]
          split
          · rename_i a heq
            obtain rfl := Except.ok.inj heq
            rw [Option.eq_none_iff_forall_ne_some.2 fun name h => hname ⟨a, name, rfl, h⟩]
          · rename_i heq
            rw [Except.ok.inj heq]
          · rename_i heq
            simp at heq
        rw [hkey]
        exact .value hword hlaid
  · rw [key, if_neg hword]
    exact .raw

theorem Labelled.alike {bytes bytes' : List UInt8} {k : Key} (h : r.Labelled ty bytes k)
    (h' : r.Labelled ty bytes' k) : r.Alike ty bytes bytes' := by
  cases h with
  | raw =>
    cases h'
    exact .same
  | value hword hlaid =>
    cases h' with
    | value _ hlaid' =>
      obtain rfl := Layout.laid_word_unique hword hlaid hlaid'
      exact .same
  | name ha =>
    cases h' with
    | name hb => exact .named ha hb

theorem key_of_named {a : Address} {name : String} (h : r.aliases.get? a = some name) :
    r.key .address a.toWord.toBytes = .label name := by
  have hholds : (Layout.Source.ofBytes a.toWord.toBytes).Holds 0 a.toWord.toBytes :=
    Layout.Source.holds_ofBytes (by rw [Word.length_toBytes]; decide) (Nat.zero_le _)
      List.prefix_rfl
  have hdecode : Layout.decode (.ofBytes a.toWord.toBytes) .address 0 = .ok (.address a) :=
    Layout.decodes_of_legal (.address a) rfl _ 0 (Address.toBytes_toWord a) hholds
  simp only [key, Ty.isWord, if_true, hdecode, h]

theorem key_eq_key_iff {bytes bytes' : List UInt8} (hlen : bytes.length = 32)
    (hlen' : bytes'.length = 32) : r.key ty bytes = r.key ty bytes' ↔ r.Alike ty bytes bytes' := by
  constructor
  · intro heq
    have h : r.Labelled ty bytes (r.key ty bytes) := labelled_key hlen
    rw [heq] at h
    exact h.alike (labelled_key hlen')
  · intro h
    cases h with
    | same => rfl
    | named ha hb => rw [key_of_named ha, key_of_named hb]

/-! ## All keys of an entry -/

/-- The keys at each place are alike. -/
inductive AllAlike (r : Recording) : List Ty → List (List UInt8) → List (List UInt8) → Prop
  | nil : AllAlike r [] [] []
  | cons {ty : Ty} {types : List Ty} {key key' : List UInt8} {keys keys' : List (List UInt8)}
      (hkey : r.Alike ty key key') (hkeys : AllAlike r types keys keys') :
      AllAlike r (ty :: types) (key :: keys) (key' :: keys')

/-- The keys of two entries differ, but in nothing other than addresses that have one name. -/
def Namesakes (r : Recording) (ty : Ty) (keys keys' : List (List UInt8)) : Prop :=
  keys ≠ keys' ∧ r.AllAlike ty.keyTypes keys keys'

theorem labels_eq_iff {types : List Ty} (hcount : keys.length = types.length)
    (hcount' : keys'.length = types.length) (hlen : ∀ key ∈ keys, key.length = 32)
    (hlen' : ∀ key ∈ keys', key.length = 32) :
    List.zipWith r.key types keys = List.zipWith r.key types keys' ↔
      r.AllAlike types keys keys' := by
  induction types generalizing keys keys' with
  | nil =>
    obtain rfl := List.length_eq_zero_iff.1 hcount
    obtain rfl := List.length_eq_zero_iff.1 hcount'
    simp [AllAlike.nil]
  | cons t ts ih =>
    obtain ⟨key, keys, rfl⟩ := List.exists_cons_of_length_eq_add_one hcount
    obtain ⟨key', keys', rfl⟩ := List.exists_cons_of_length_eq_add_one hcount'
    rw [List.forall_mem_cons] at hlen hlen'
    have hkey : r.key t key = r.key t key' ↔ r.Alike t key key' := key_eq_key_iff hlen.1 hlen'.1
    have hkeys := ih (Nat.succ.inj hcount) (Nat.succ.inj hcount') hlen.2 hlen'.2
    rw [List.zipWith_cons_cons, List.zipWith_cons_cons, List.cons.injEq, hkey, hkeys]
    constructor
    · rintro ⟨hkey, hkeys⟩
      exact .cons hkey hkeys
    · intro h
      cases h with
      | cons hkey hkeys => exact ⟨hkey, hkeys⟩

/-! ## Written slots and their entries -/

theorem Unwinds.derived (h : r.Unwinds config root slot keys) :
    ∃ base : Word, base.toBytes = bytesOfNat 32 root ∧
      Storage.Derived r.preimages base keys slot := by
  obtain ⟨base, found, heq, -, hderived, -⟩ := Storage.path_eq_ok.1 h
  obtain ⟨hbase, rfl⟩ := List.cons.inj heq
  exact ⟨base, hbase.symm, hderived⟩

theorem Unwinds.slot_eq (h : r.Unwinds config root slot keys)
    (h' : r.Unwinds config root other keys) (hrecorded : r.preimages.Recorded) : slot = other := by
  obtain ⟨base, hbase, hderived⟩ := h.derived
  obtain ⟨base', hbase', hderived'⟩ := h'.derived
  obtain rfl := Word.toBytes_inj (hbase.trans hbase'.symm)
  exact hderived.location_eq hderived' hrecorded

theorem Unwinds.length_key (h : r.Unwinds config root slot keys)
    (hrecorded : r.preimages.Recorded) : ∀ key ∈ keys, key.length = 32 := by
  obtain ⟨base, -, hderived⟩ := h.derived
  exact hderived.length_key hrecorded

/-- The slot holds an entry of the mapping, which is to be shown. -/
structure Yields (r : Recording) (config : Config) (address : Address) (ty : Ty) (root : Nat)
    (slot : Word) (keys : List (List UInt8)) (x : Reading) : Prop where
  unwinds : r.Unwinds config root slot keys
  count : keys.length = ty.keyTypes.length
  fits : isTruncated config ty.leafType = false
  shows : r.Shows address ty.leafType slot x

/-- The entry that a slot holds, if any. -/
def shown? (r : Recording) (config : Config) (address : Address) (ty : Ty) (root : Nat)
    (slot : Word) : Option (List Key × Reading) :=
  match Storage.path r.preimages slot config.maxDepth with
  | .ok path => (r.leaf? config address ty root slot path).join
  | .error _ => none

theorem shown?_eq_some {l : List Key × Reading} :
    r.shown? config address ty root slot = some l ↔
      ∃ keys, r.Yields config address ty root slot keys l.2 ∧ l.1 = r.decodeKeys ty keys := by
  unfold shown?
  cases hpath : Storage.path r.preimages slot config.maxDepth with
  | error e =>
    simp only [reduceCtorEq, false_iff, not_exists, not_and]
    intro keys h
    have hunwinds := h.unwinds
    rw [Unwinds, hpath] at hunwinds
    simp at hunwinds
  | ok path =>
    obtain ⟨labels, x⟩ := l
    simp only [Option.join_eq_some_iff, leaf?_eq_some]
    constructor
    · rintro ⟨keys, ⟨rfl, hcount, hfits⟩, rfl, hshows⟩
      exact ⟨keys, ⟨hpath, hcount, hfits, hshows⟩, rfl⟩
    · rintro ⟨keys, h, rfl⟩
      have hunwinds := h.unwinds
      rw [Unwinds, hpath, Except.ok.injEq] at hunwinds
      exact ⟨keys, ⟨hunwinds, h.count, h.fits⟩, rfl, h.shows⟩

theorem yielded_eq_filterMap (r : Recording) (config : Config) (address : Address) (ty : Ty)
    (root : Nat) :
    r.yielded config address ty root =
      (r.writes.slots address).filterMap (r.shown? config address ty root) := by
  rw [yielded, writtenPaths, List.filterMap_filterMap]
  apply List.filterMap_congr
  intro slot _
  unfold shown?
  cases Storage.path r.preimages slot config.maxDepth <;> rfl

/-- Different slots with entries have their own keys in a dump, unless they are namesakes. -/
theorem Yields.decodeKeys_eq_iff {y : Reading} (h : r.Yields config address ty root slot keys x)
    (h' : r.Yields config address ty root other keys' y) (hne : slot ≠ other)
    (hrecorded : r.preimages.Recorded) :
    r.decodeKeys ty keys = r.decodeKeys ty keys' ↔ r.Namesakes ty keys keys' := by
  have hdiffer : keys ≠ keys' := by
    rintro rfl
    exact hne (h.unwinds.slot_eq h'.unwinds hrecorded)
  rw [decodeKeys, decodeKeys, labels_eq_iff h.count h'.count (h.unwinds.length_key hrecorded)
    (h'.unwinds.length_key hrecorded), Namesakes]
  exact (and_iff_right hdiffer).symm

/-- Where preimages of two words were recorded, entries of a mapping lose their place in a dump to
nothing but names: different slots share a place exactly if they are namesakes, and what a slot
shows is there unless a namesake comes after it.  There is a dump unless some entry of the mapping
stops the program. -/
theorem leaves_of_recorded (r : Recording) (config : Config) (address : Address) (ty : Ty)
    (root : Nat) (hrecorded : r.preimages.Recorded) (hmapping : ty.isMapping = true) :
    (r.readWith config (r.writtenPaths config address) address ty root = none ↔
      ∃ k ∈ r.writes.slots address, ∃ keys, r.Unwinds config root k keys ∧
        keys.length = ty.keyTypes.length ∧ isTruncated config ty.leafType = false ∧
        r.Stops address ty.leafType k) ∧
    (∀ k l keys keys' x y, r.Yields config address ty root k keys x →
      r.Yields config address ty root l keys' y → k ≠ l →
      (r.decodeKeys ty keys = r.decodeKeys ty keys' ↔ r.Namesakes ty keys keys')) ∧
    ∀ tree, r.readWith config (r.writtenPaths config address) address ty root = some tree →
      ∃ entries, tree = .mapping entries ∧
        ((Reading.mapping entries).leaves.map Prod.fst).Nodup ∧
        ∀ before k after keys x, r.writes.slots address = before ++ k :: after →
          r.Yields config address ty root k keys x →
          (∀ l ∈ after, ∀ keys' y, r.Yields config address ty root l keys' y →
            ¬r.Namesakes ty keys keys') →
          (r.decodeKeys ty keys, x) ∈ (Reading.mapping entries).leaves := by
  rw [readWith, if_pos hmapping]
  refine ⟨readMapping_writtenPaths_eq_none, fun k l keys keys' x y h h' hne =>
    h.decodeKeys_eq_iff h' hne hrecorded, fun tree htree => ?_⟩
  obtain ⟨n, hdepth⟩ := Ty.exists_length_keyTypes hmapping
  have hempty : Reading.Layered (n + 1) (.mapping []) := by simp [Reading.Layered]
  have hleaf : ∀ l ∈ r.yielded config address ty root, l.2.isMapping = false :=
    fun _ => isMapping_of_mem_yielded
  have hlen : ∀ l ∈ r.yielded config address ty root, l.1.length = n + 1 :=
    fun _ hl => (length_of_mem_yielded hl).trans hdepth
  refine ⟨_, readMapping_writtenPaths_eq_some htree, ?_, ?_⟩
  · exact (Entries.layered_insertAll hleaf hlen hempty).nodup_paths
  · intro before k after keys x hslots h hlast
    rw [Reading.leaves, Entries.mem_entryLeaves_insertAll_iff hleaf hlen hempty]
    have hentry : r.shown? config address ty root k = some (r.decodeKeys ty keys, x) :=
      shown?_eq_some.2 ⟨keys, h, rfl⟩
    refine .inl ⟨before.filterMap (r.shown? config address ty root),
      after.filterMap (r.shown? config address ty root), ?_, ?_⟩
    · rw [yielded_eq_filterMap, hslots, List.filterMap_append, List.filterMap_cons_some hentry]
    · -- what is set after it at its place is set for the same slot
      intro m hm hplace
      obtain ⟨l, hl, hm⟩ := List.mem_filterMap.1 hm
      obtain ⟨keys', h', hlabels⟩ := shown?_eq_some.1 hm
      by_cases hkl : k = l
      · subst hkl
        exact Prod.ext hplace (h'.shows.unique h.shows)
      · have hnamesakes := (h.decodeKeys_eq_iff h' hkl hrecorded).1 (hplace.symm.trans hlabels)
        exact absurd hnamesakes (hlast l hl keys' m.2 h')

/-! ## Balances of two accounts -/

def firstSlot : Word := 0xa6eef7e35abe7026729641147f7915573c7e97b47efa546f5f6e3230263bcb49

def secondSlot : Word := 0xac33ff75c19e70fe83507db0d683fd3465c996598dc972688b7ace676c89077b

def balanceType : Ty := .mapping .address (.uint 256)

def balances (names : Aliases) : Recording where
  storage := Cells.reader (Table.ofList [((7, firstSlot), 5), ((7, secondSlot), 6)])
  preimages := (Preimages.record {} (bytesOfNat 32 0 ++ bytesOfNat 32 1)).record
    (bytesOfNat 32 0 ++ bytesOfNat 32 2)
  writes := (WriteLog.record {} 7 firstSlot).record 7 secondSlot
  aliases := names

theorem recorded_balances (names : Aliases) : (balances names).preimages.Recorded :=
  .record (.record .empty rfl) rfl

theorem slots_balances (names : Aliases) :
    (balances names).writes.slots 7 = [firstSlot, secondSlot] := by
  change ((WriteLog.record {} 7 firstSlot).record 7 secondSlot).slots 7 = _
  decide +kernel

theorem preimages_balances (names : Aliases) : (balances names).preimages =
    Table.ofList [(firstSlot, bytesOfNat 32 0 ++ bytesOfNat 32 1),
      (secondSlot, bytesOfNat 32 0 ++ bytesOfNat 32 2)] := by
  have hfirst : keccak256 (bytesOfNat 32 0 ++ bytesOfNat 32 1) = firstSlot :=
    Storage.keccak256_outerEntry
  have hsecond : keccak256 (bytesOfNat 32 0 ++ bytesOfNat 32 2) = secondSlot := by decide +kernel
  simp only [balances, Preimages.record, hfirst, hsecond]
  rfl

theorem decodeAt_balances (names : Aliases) (slot : Word) :
    (balances names).decodeAt 7 (.uint 256) slot =
      (balances {}).decodeAt 7 (.uint 256) slot := rfl

theorem yields_first (names : Aliases) :
    (balances names).Yields {} 7 balanceType 0 firstSlot [bytesOfNat 32 1]
      (.value ⟨.uint 5 256, .uint 256⟩) where
  unwinds := by
    rw [Unwinds, preimages_balances]
    decide +kernel
  count := rfl
  fits := by decide +kernel
  shows := .value ((decodeAt_balances names firstSlot).trans (by decide +kernel)) rfl

theorem yields_second (names : Aliases) :
    (balances names).Yields {} 7 balanceType 0 secondSlot [bytesOfNat 32 2]
      (.value ⟨.uint 6 256, .uint 256⟩) where
  unwinds := by
    rw [Unwinds, preimages_balances]
    decide +kernel
  count := rfl
  fits := by decide +kernel
  shows := .value ((decodeAt_balances names secondSlot).trans (by decide +kernel)) rfl

theorem exists_tree_balances (names : Aliases) :
    ∃ tree, (balances names).readWith {} ((balances names).writtenPaths {} 7) 7 balanceType 0 =
      some tree :=
  Option.ne_none_iff_exists'.1 (readWith_ne_none (.inr (by decide)))

def oneName : Aliases := .ofList [(1, "bank"), (2, "bank")]

/-- Two accounts of one name: both slots hold an entry, and the dump shows the second one only. -/
theorem leaves_one_name :
    (balances oneName).preimages.Recorded ∧ firstSlot ≠ secondSlot ∧
      (balances oneName).writes.slots 7 = [firstSlot, secondSlot] ∧
      (balances oneName).Yields {} 7 balanceType 0 firstSlot [bytesOfNat 32 1]
        (.value ⟨.uint 5 256, .uint 256⟩) ∧
      (balances oneName).Yields {} 7 balanceType 0 secondSlot [bytesOfNat 32 2]
        (.value ⟨.uint 6 256, .uint 256⟩) ∧
      ∃ tree, (balances oneName).readWith {} ((balances oneName).writtenPaths {} 7) 7 balanceType
          0 = some tree ∧
        tree.leaves = [([.label "bank"], .value ⟨.uint 6 256, .uint 256⟩)] := by
  refine ⟨recorded_balances _, by decide, slots_balances _, yields_first _, yields_second _, ?_⟩
  have hfirst : (balances oneName).shown? {} 7 balanceType 0 firstSlot =
      some ([.label "bank"], .value ⟨.uint 5 256, .uint 256⟩) :=
    shown?_eq_some.2 ⟨_, yields_first oneName, by decide +kernel⟩
  have hsecond : (balances oneName).shown? {} 7 balanceType 0 secondSlot =
      some ([.label "bank"], .value ⟨.uint 6 256, .uint 256⟩) :=
    shown?_eq_some.2 ⟨_, yields_second oneName, by decide +kernel⟩
  obtain ⟨tree, htree⟩ := exists_tree_balances oneName
  refine ⟨tree, htree, ?_⟩
  have hmapping : balanceType.isMapping = true := rfl
  rw [readWith, if_pos hmapping] at htree
  rw [readMapping_writtenPaths_eq_some htree, yielded_eq_filterMap, slots_balances,
    List.filterMap_cons_some hfirst, List.filterMap_cons_some hsecond, List.filterMap_nil]
  rfl

/-- Where only one of the accounts has a name, both entries are shown. -/
theorem leaves_of_recorded_balances :
    (balances (.ofList [(1, "bank")])).preimages.Recorded ∧ balanceType.isMapping = true ∧
      ∃ tree, (balances (.ofList [(1, "bank")])).readWith {}
          ((balances (.ofList [(1, "bank")])).writtenPaths {} 7) 7 balanceType 0 = some tree ∧
        ([.label "bank"], .value ⟨.uint 5 256, .uint 256⟩) ∈ tree.leaves ∧
        ([.value ⟨.address 2, .address⟩], .value ⟨.uint 6 256, .uint 256⟩) ∈ tree.leaves := by
  obtain ⟨-, hplaces, hdump⟩ :=
    leaves_of_recorded (balances (.ofList [(1, "bank")])) {} 7 balanceType 0
      (recorded_balances _) rfl
  obtain ⟨tree, htree⟩ := exists_tree_balances (.ofList [(1, "bank")])
  obtain ⟨entries, rfl, -, hkept⟩ := hdump tree htree
  have hfirst : (balances (.ofList [(1, "bank")])).decodeKeys balanceType [bytesOfNat 32 1] =
      [.label "bank"] := by decide +kernel
  have hsecond : (balances (.ofList [(1, "bank")])).decodeKeys balanceType [bytesOfNat 32 2] =
      [.value ⟨.address 2, .address⟩] := by decide +kernel
  rw [← hfirst, ← hsecond]
  refine ⟨recorded_balances _, rfl, _, htree, ?_, ?_⟩
  · refine hkept [] firstSlot [secondSlot] _ _ (slots_balances _) (yields_first _) ?_
    intro l hl keys y h hnamesakes
    obtain rfl := List.mem_singleton.1 hl
    have hkeys := h.unwinds
    rw [Unwinds, (yields_second _).unwinds, Except.ok.injEq, List.cons.injEq] at hkeys
    rw [← hplaces _ _ _ _ _ _ (yields_first _) h (by decide), ← hkeys.2, hfirst,
      hsecond] at hnamesakes
    simp at hnamesakes
  · refine hkept [firstSlot] secondSlot [] _ _ (slots_balances _) (yields_second _) ?_
    simp

end EvmInspect.Recording
