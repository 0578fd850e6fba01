import EvmInspect.Proofs.Storage.Path
import EvmInspect.Proofs.Table
/-!
# Recorded preimages

Where every digest was computed from the bytes that are noted for it, the path of a location says
where it lies: hashing forward along the path, from the root through the keys, gives the location
back.  No two locations have one path then, whatever collisions the digest may have.  Where each
preimage was two words, a location and a key, the keys on a path are words.
-/

namespace EvmInspect

namespace Preimages

variable {p : Preimages} {digest : Word} {bytes : List UInt8}

def ofRecords (inputs : List (List UInt8)) : Preimages := inputs.foldl record {}

/-- Every digest is that of the bytes that are noted for it. -/
def Faithful (p : Preimages) : Prop :=
  ∀ digest bytes, p.get? digest = some bytes → digest = keccak256 bytes

/-- The table was built by recording preimages of two words. -/
inductive Recorded : Preimages → Prop
  | empty : Recorded {}
  | record {p : Preimages} {bytes : List UInt8} (hrecorded : Recorded p)
      (hlength : bytes.length = 64) : Recorded (p.record bytes)

theorem get?_record :
    (p.record bytes).get? digest =
      if keccak256 bytes = digest then some bytes else p.get? digest :=
  Table.lookup_insertEntry

theorem faithful_empty : Faithful {} := by
  intro digest bytes h
  simp [Table.get?, Table.lookup] at h

/-- What is recorded replaces nothing but bytes of the same digest. -/
theorem Faithful.record (h : p.Faithful) (bytes : List UInt8) : (p.record bytes).Faithful := by
  intro digest noted hget
  rw [get?_record] at hget
  split at hget
  · rename_i hdigest
    rw [Option.some.injEq] at hget
    rw [← hdigest, hget]
  · exact h digest noted hget

theorem Faithful.records (h : p.Faithful) (inputs : List (List UInt8)) :
    (inputs.foldl Preimages.record p).Faithful := by
  induction inputs generalizing p with
  | nil => exact h
  | cons bytes inputs ih => exact ih (h.record bytes)

theorem faithful_ofRecords (inputs : List (List UInt8)) : (ofRecords inputs).Faithful :=
  faithful_empty.records inputs

theorem Recorded.faithful (h : p.Recorded) : p.Faithful := by
  induction h with
  | empty => exact faithful_empty
  | record _ _ ih => exact ih.record _

theorem Recorded.length_eq (h : p.Recorded) (hget : p.get? digest = some bytes) :
    bytes.length = 64 := by
  induction h with
  | empty => simp [Table.get?, Table.lookup] at hget
  | record _ hlength ih =>
    rw [get?_record] at hget
    split at hget
    · rw [Option.some.injEq] at hget
      rwa [← hget]
    · exact ih hget

end Preimages

namespace Storage

variable {preimages : Preimages} {root location other : Word} {keys : List (List UInt8)}

/-- The location of the entry that keys lead to, the outermost first. -/
def locate (root : Word) (keys : List (List UInt8)) : Word :=
  keys.foldl (fun location key => keccak256 (location.toBytes ++ key)) root

theorem locate_concat (root : Word) (keys : List (List UInt8)) (key : List UInt8) :
    locate root (keys ++ [key]) = keccak256 ((locate root keys).toBytes ++ key) := by
  rw [locate, List.foldl_append]
  rfl

theorem Derived.locate_eq (h : Derived preimages root keys location)
    (hfaithful : preimages.Faithful) : locate root keys = location := by
  induction h with
  | root => rfl
  | entry _ hentry ih =>
    rw [locate_concat, ih]
    exact (hfaithful _ _ hentry).symm

theorem Derived.location_eq (h : Derived preimages root keys location)
    (h' : Derived preimages root keys other) (hrecorded : preimages.Recorded) :
    location = other := by
  rw [← h.locate_eq hrecorded.faithful, h'.locate_eq hrecorded.faithful]

theorem Derived.length_key (h : Derived preimages root keys location)
    (hrecorded : preimages.Recorded) : ∀ key ∈ keys, key.length = 32 := by
  induction h with
  | root => simp
  | @entry keys parent location key _ hentry ih =>
    have hlength := hrecorded.length_eq hentry
    rw [List.length_append, Word.length_toBytes] at hlength
    rw [List.forall_mem_append, List.forall_mem_singleton]
    exact ⟨ih, by omega⟩

/-- Whatever was recorded, a path that is found leads back to the location when it is hashed
forward, so that no other location has it. -/
theorem locate_of_path (inputs : List (List UInt8)) (location : Word) (depth : Nat)
    {found : List (List UInt8)}
    (h : path (Preimages.ofRecords inputs) location depth = .ok found) :
    (∃ root keys, found = root.toBytes :: keys ∧ locate root keys = location) ∧
      ∀ other limit, path (Preimages.ofRecords inputs) other limit = .ok found →
        other = location := by
  have hfaithful := Preimages.faithful_ofRecords inputs
  obtain ⟨root, keys, rfl, -, hderived, -⟩ := path_eq_ok.1 h
  refine ⟨⟨root, keys, rfl, hderived.locate_eq hfaithful⟩, fun other limit hother => ?_⟩
  obtain ⟨root', keys', heq, -, hderived', -⟩ := path_eq_ok.1 hother
  obtain ⟨hroot, rfl⟩ := List.cons.inj heq
  obtain rfl := Word.toBytes_inj hroot
  rw [← hderived'.locate_eq hfaithful, hderived.locate_eq hfaithful]

def outerEntry : Word := 0xa6eef7e35abe7026729641147f7915573c7e97b47efa546f5f6e3230263bcb49

def innerEntry : Word := 0x6b7cf3666cb877c85468a54a4b1507c9e2cdc58f77e1c2709d37b70cc337c4e9

theorem keccak256_outerEntry : keccak256 (bytesOfNat 32 0 ++ bytesOfNat 32 1) = outerEntry := by
  decide +kernel

theorem keccak256_innerEntry :
    keccak256 (outerEntry.toBytes ++ bytesOfNat 32 2) = innerEntry := by
  decide +kernel

/-- The path of an entry of a mapping in a mapping. -/
theorem locate_of_path_nested :
    path (Preimages.ofRecords
        [bytesOfNat 32 0 ++ bytesOfNat 32 1, outerEntry.toBytes ++ bytesOfNat 32 2]) innerEntry 2 =
      .ok [bytesOfNat 32 0, bytesOfNat 32 1, bytesOfNat 32 2] ∧
    ∃ root keys, [bytesOfNat 32 0, bytesOfNat 32 1, bytesOfNat 32 2] = root.toBytes :: keys ∧
      locate root keys = innerEntry := by
  have hpath : path (Preimages.ofRecords
      [bytesOfNat 32 0 ++ bytesOfNat 32 1, outerEntry.toBytes ++ bytesOfNat 32 2]) innerEntry 2 =
        .ok [bytesOfNat 32 0, bytesOfNat 32 1, bytesOfNat 32 2] := by
    simp only [Preimages.ofRecords, List.foldl_cons, List.foldl_nil, Preimages.record,
      keccak256_outerEntry, keccak256_innerEntry]
    decide +kernel
  exact ⟨hpath, (locate_of_path _ innerEntry 2 hpath).1⟩

end Storage

end EvmInspect
