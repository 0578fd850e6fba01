import EvmInspect.Proofs.Layout.Storage
import EvmInspect.Proofs.Table
import EvmInspect.Storage.Dump
/-!
# Immutables behind the code

The immutables of a contract are read from as many bytes at the end of its code as the compiler says
they take.  If less stands behind what the compiler made, or nothing as for a contract that is
deployed without them, the reading starts within the program: the missing bytes are taken from its
end, and every immutable is read that much too early.  Only code that goes on with all of the
immutables, or that has no program in front of them, is read as it is meant.
-/

namespace EvmInspect

namespace Listing

variable {α : Type} {owner name : String} {a : α} {before after : List (String × α)}

theorem get?_ofList_of_last (h : name ∉ after.map Prod.fst) :
    (ofList owner (before ++ (name, a) :: after)).get? name = some a := by
  rw [get?, ofList, Table.get?_ofList_of_last h]

end Listing

namespace Layout

variable {bytes : List UInt8} {t : Ty} {offset : Nat}

theorem word_of_bind {α : Type} {f : Word → Except Fault α} {a : α}
    (h : wordAt (.ofBytes bytes) offset >>= f = .ok a) : offset + 32 ≤ bytes.length := by
  obtain ⟨word, hword, -⟩ := bind_eq_ok.1 h
  exact (wordAt_ofBytes_eq_ok.1 hword).1

theorem word_of_lengthAt {ty : Ty} {bound n : Nat}
    (h : lengthAt ty bound (.ofBytes bytes) offset = .ok n) : offset + 32 ≤ bytes.length :=
  word_of_bind h

theorem word_of_decodeMembers {members : List Ty} {items : List Value}
    (h : ∀ t ∈ members, ∀ {offset : Nat} {v : Value}, 0 < t.room →
      decode (.ofBytes bytes) t offset = .ok v → offset + 32 ≤ bytes.length)
    (hroom : 0 < Ty.membersRoom members)
    (hdecode : decodeMembers (.ofBytes bytes) members offset = .ok items) :
    offset + 32 ≤ bytes.length := by
  induction members generalizing offset items with
  | nil => exact absurd hroom (Nat.lt_irrefl 0)
  | cons t ts ih =>
    rw [List.forall_mem_cons] at h
    rw [Ty.membersRoom] at hroom
    rw [decodeMembers] at hdecode
    obtain ⟨v, hv, hdecode⟩ := bind_eq_ok.1 hdecode
    obtain ⟨next, hnext, hdecode⟩ := bind_eq_ok.1 hdecode
    obtain ⟨rest, hrest, -⟩ := bind_eq_ok.1 hdecode
    rcases Nat.eq_zero_or_pos t.room with hzero | hpos
    · -- a member without room leaves the next one where it is itself
      have hsize : t.layoutSize = 0 := by rw [Ty.layoutSize_eq_min, hzero, Nat.zero_min]
      obtain ⟨-, rfl⟩ := advance_eq_ok.1 hnext
      rw [hsize, Nat.add_zero] at hrest
      exact ih h.2 (by omega) hrest
    · exact h.1 hpos hv

theorem word_of_decode {v : Value} (hroom : 0 < t.room)
    (h : decode (.ofBytes bytes) t offset = .ok v) : offset + 32 ≤ bytes.length := by
  induction t using Ty.memberInduction generalizing offset v with
  | uint | int | bool | address | fixedBytes =>
    rw [decode] at h
    exact word_of_bind h
  | bytes bound | string bound | dynArray elem bound =>
    rw [decode] at h
    obtain ⟨n, hn, -⟩ := bind_eq_ok.1 h
    exact word_of_lengthAt hn
  | array elem n ih =>
    rw [decode, ← decodeMembers_replicate] at h
    obtain ⟨items, hitems, -⟩ := bind_eq_ok.1 h
    rw [Ty.room, ← Ty.membersRoom_replicate] at hroom
    refine word_of_decodeMembers (fun u hu => ?_) hroom hitems
    rw [List.eq_of_mem_replicate hu]
    exact ih
  | tuple members ih =>
    rw [decode] at h
    obtain ⟨items, hitems, -⟩ := bind_eq_ok.1 h
    exact word_of_decodeMembers (fun u hu => ih u hu) hroom hitems
  | struct name fields ih =>
    rw [decode, decodeFields_eq] at h
    obtain ⟨items, hitems, -⟩ := bind_eq_ok.1 h
    rw [Ty.room, Ty.fieldsRoom_eq] at hroom
    exact word_of_decodeMembers (fun u hu => ih u hu) hroom hitems
  | mapping key value =>
    rw [decode] at h
    exact absurd h throw_ne_ok

end Layout

namespace Artifact

/-- Where the immutables are looked for if `data` stands behind the code: bytes that are missing are
the last ones of the code. -/
def trailing (a : Artifact) (data : List UInt8) : List UInt8 :=
  a.code.drop (a.code.length - (a.immutablesSize - data.length)) ++ data

variable {a : Artifact} {data : List UInt8}

theorem trailing_eq_self_iff (hlen : data.length ≤ a.immutablesSize) :
    a.trailing data = data ↔ data.length = a.immutablesSize ∨ a.code = [] := by
  rw [trailing, List.append_left_eq_self, List.drop_eq_nil_iff, ← List.length_eq_zero_iff]
  omega

end Artifact

namespace Contract

variable {c : Contract} {data : List UInt8}

theorem immutableBytes_eq_trailing (hcode : c.code = c.artifact.code ++ data)
    (hlen : data.length ≤ c.artifact.immutablesSize) :
    c.immutableBytes = c.artifact.trailing data := by
  have hstart : (c.artifact.code ++ data).length - c.artifact.immutablesSize =
      c.artifact.code.length - (c.artifact.immutablesSize - data.length) := by
    rw [List.length_append]
    omega
  rw [immutableBytes, hcode, hstart, List.drop_append_of_le_length (Nat.sub_le _ _),
    Artifact.trailing]

def shown : Except Layout.Fault Declared → Reading
  | .ok v => .value v
  | .error fault => .invalid fault.message

theorem readImmutable_eq (c : Contract) (v : Variable) (offset : Nat) :
    c.readImmutable v offset =
      some (shown (Layout.decodeDeclared (.ofBytes c.immutableBytes) v.ty offset)) := by
  rw [readImmutable]
  cases h : Layout.decodeDeclared (.ofBytes c.immutableBytes) v.ty offset with
  | ok d => rfl
  | error fault =>
    have hreported := Layout.reported_decode (Layout.steady_ofBytes c.immutableBytes) v.ty offset
      fault (map_eq_error.1 h)
    rw [Reading.ofDecoded, hreported, if_neg Bool.false_ne_true]
    rfl

theorem immutablesDump_eq (c : Contract) :
    c.immutablesDump = some (.ofList "immutables" (c.artifact.immutables.map fun p =>
      (p.1.name, shown (Layout.decodeDeclared (.ofBytes c.immutableBytes) p.1.ty p.2)))) := by
  have hrow (p : Variable × Nat) :
      ((c.readImmutable p.1 p.2).map fun reading => (p.1.name, reading)) = some
        (p.1.name, shown (Layout.decodeDeclared (.ofBytes c.immutableBytes) p.1.ty p.2)) := by
    rw [readImmutable_eq]
    rfl
  rw [immutablesDump, mapM_eq_some_map fun p _ => hrow p]
  rfl

theorem get?_immutablesDump {before after : List (Variable × Nat)} {v : Variable} {offset : Nat}
    {listing : Listing Reading} (hlisting : c.immutablesDump = some listing)
    (himmutables : c.artifact.immutables = before ++ (v, offset) :: after)
    (hlast : ∀ p ∈ after, p.1.name ≠ v.name) :
    listing.get? v.name =
      some (shown (Layout.decodeDeclared (.ofBytes c.immutableBytes) v.ty offset)) := by
  rw [immutablesDump_eq, Option.some.injEq] at hlisting
  rw [← hlisting, himmutables, List.map_append, List.map_cons]
  refine Listing.get?_ofList_of_last fun hmem => ?_
  obtain ⟨e, he, hname⟩ := List.mem_map.1 hmem
  obtain ⟨p, hp, rfl⟩ := List.mem_map.1 he
  exact hlast p hp hname

/-- If `data` stands behind the code that the compiler made, each immutable is decoded from the
trailing bytes: it is shown as the value if there is one, as invalid if not, and so if it takes room
and no word is left for it.  These bytes are `data` if they are complete or if there is no code;
otherwise the program is read. -/
theorem immutablesDump_of_code (c : Contract) (data : List UInt8)
    (hcode : c.code = c.artifact.code ++ data)
    (hlen : data.length ≤ c.artifact.immutablesSize) :
    (∃ listing, c.immutablesDump = some listing ∧
      ∀ before v offset after, c.artifact.immutables = before ++ (v, offset) :: after →
        (∀ p ∈ after, p.1.name ≠ v.name) →
        (∀ raw, Layout.decode (.ofBytes (c.artifact.trailing data)) v.ty offset = .ok raw →
          listing.get? v.name = some (.value ⟨raw, v.ty⟩)) ∧
        (∀ fault, Layout.decode (.ofBytes (c.artifact.trailing data)) v.ty offset =
          .error fault → listing.get? v.name = some (.invalid fault.message)) ∧
        (0 < v.ty.room → (c.artifact.trailing data).length < offset + 32 →
          ∃ reason, listing.get? v.name = some (.invalid reason))) ∧
    (c.artifact.trailing data = data ↔
      data.length = c.artifact.immutablesSize ∨ c.artifact.code = []) := by
  refine ⟨⟨_, immutablesDump_eq c, fun before v offset after himmutables hlast => ?_⟩,
    Artifact.trailing_eq_self_iff hlen⟩
  rw [get?_immutablesDump (immutablesDump_eq c) himmutables hlast,
    immutableBytes_eq_trailing hcode hlen, Layout.decodeDeclared]
  refine ⟨fun raw h => by rw [h]; rfl, fun fault h => by rw [h]; rfl, fun hroom hshort => ?_⟩
  cases h : Layout.decode (.ofBytes (c.artifact.trailing data)) v.ty offset with
  | error fault => exact ⟨_, rfl⟩
  | ok raw =>
    have := Layout.word_of_decode hroom h
    omega

def limited : Artifact where
  name := "Limited"
  code := [0]
  stateVariables := [⟨"LIMIT", .uint 256, .immutable 0⟩, ⟨"FLAG", .bool, .immutable 32⟩]
  immutablesSize := 64

/-- With both immutables behind it the program byte is not read.  With the number alone it is: the
number is read a byte too early, and the truth value is invalid. -/
theorem immutablesDump_limited :
    (∃ listing, (observed limited 1
        ([0] ++ (bytesOfNat 32 500 ++ bytesOfNat 32 1))).immutablesDump = some listing ∧
      listing.get? "LIMIT" = some (.value ⟨.uint 500 256, .uint 256⟩)) ∧
    ∃ listing, (observed limited 1 ([0] ++ bytesOfNat 32 500)).immutablesDump = some listing ∧
      listing.get? "LIMIT" = some (.value ⟨.uint 1 256, .uint 256⟩) ∧
      ∃ reason, listing.get? "FLAG" = some (.invalid reason) := by
  obtain ⟨⟨complete, hdump, hcomplete⟩, -⟩ := immutablesDump_of_code
    (observed limited 1 ([0] ++ (bytesOfNat 32 500 ++ bytesOfNat 32 1))) _ rfl (by decide)
  obtain ⟨⟨short, hdump', hshort⟩, -⟩ := immutablesDump_of_code
    (observed limited 1 ([0] ++ bytesOfNat 32 500)) _ rfl (by decide)
  refine ⟨⟨_, hdump, (hcomplete [] _ 0 _ rfl (by decide)).1 _ (by decide +kernel)⟩,
    _, hdump', (hshort [] _ 0 _ rfl (by decide)).1 _ (by decide +kernel), ?_⟩
  exact (hshort [_] ⟨"FLAG", .bool, .immutable 32⟩ 32 [] rfl (by simp)).2.2 (by decide) (by decide)

def lucky : Artifact where
  name := "Lucky"
  code := bytesOfNat 32 7
  stateVariables := [⟨"CAP", .uint 256, .immutable 0⟩]
  immutablesSize := 32

/-- Nothing stands behind the code, so that there is nothing to decode, and yet a value is shown:
the end of the program. -/
theorem immutablesDump_deployed :
    (∃ fault, Layout.decode (.ofBytes []) (.uint 256) 0 = .error fault) ∧
      ∃ listing, (deployed lucky 1).immutablesDump = some listing ∧
        listing.get? "CAP" = some (.value ⟨.uint 7 256, .uint 256⟩) :=
  ⟨⟨_, rfl⟩, _, rfl, rfl⟩

end Contract

end EvmInspect
