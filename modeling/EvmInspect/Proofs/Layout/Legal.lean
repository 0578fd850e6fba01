import EvmInspect.Proofs.Abi.RoundTrip
import EvmInspect.Proofs.Layout.Window
/-!
# What decoding gives

A value that is decoded from its layout is a legal value of its type, whatever bytes it is decoded
from, so that it can be encoded for a call.  Of the source it only matters that a range that is
given has the length that was asked for; code, call memory and storage are such sources.
-/

namespace EvmInspect

namespace Text

theorem utf8ByteSize_of_ofUtf8? {bytes : List UInt8} {s : String} (h : ofUtf8? bytes = some s) :
    s.utf8ByteSize = bytes.length := by
  have hsize := @utf8ByteSize_ofUtf8Replacing bytes (by rw [h]; rfl)
  rwa [ofUtf8Replacing, h] at hsize

end Text

namespace Layout

/-! ## Sources that give what they are asked for -/

namespace Source

def Exact (src : Source) : Prop :=
  ∀ start n bytes, src start n = .ok bytes → bytes.length = n

theorem exact_ofBytes (data : List UInt8) : (ofBytes data).Exact := by
  intro start n bytes h
  obtain ⟨hend, h⟩ := ite_error_eq_ok.1 h
  cases h
  rw [List.length_take, List.length_drop]
  omega

theorem exact_ofMemory (image : List UInt8) : (ofMemory image).Exact := by
  intro start n bytes h
  rw [ofMemory] at h
  split at h
  · cases h
  cases h
  have hknown : ((image.drop start).take n).length ≤ n := List.length_take_le _ _
  rw [List.length_append, List.length_replicate]
  omega

theorem exact_ofStorage (read : StorageReader) (address : Address) (base : Word) :
    (ofStorage read address base).Exact := by
  intro start n bytes h
  rw [ofStorage] at h
  by_cases hn : n = 0
  · rw [if_pos hn] at h
    cases h
    exact hn.symm
  · rw [if_neg hn] at h
    dsimp only at h
    split at h
    · cases h
    · split at h
      · obtain ⟨hstop, h⟩ := ite_error_eq_ok.1 h
        cases h
        rw [List.length_take, List.length_drop]
        omega
      · cases h

end Source

/-! ## Decoded values are legal -/

variable {src : Source} {t : Ty} {offset : Nat}

theorem legal_of_decodeMembers {members : List Ty} {items : List Value}
    (hlegal : ∀ t ∈ members, ∀ {offset v}, decode src t offset = .ok v → t.Legal v)
    (h : decodeMembers src members offset = .ok items) : List.Forall₂ Ty.Legal members items := by
  induction members generalizing offset items with
  | nil =>
    cases h
    exact .nil
  | cons t ts ih =>
    rw [List.forall_mem_cons] at hlegal
    simp only [decodeMembers, bind_eq_ok, pure_eq_ok] at h
    obtain ⟨v, hv, next, -, vs, hvs, rfl⟩ := h
    exact .cons (hlegal.1 hv) (ih hlegal.2 hvs)

theorem legal_of_decodeCopies {n : Nat} {items : List Value}
    (hlegal : ∀ {offset v}, decode src t offset = .ok v → t.Legal v)
    (h : decodeCopies (decode src t) t.layoutSize n offset = .ok items) :
    items.length = n ∧ ∀ v ∈ items, t.Legal v := by
  rw [← decodeMembers_replicate] at h
  have hitems := legal_of_decodeMembers
    (fun u hu => by rw [List.eq_of_mem_replicate hu]; exact hlegal) h
  refine ⟨?_, forall_of_copies hitems⟩
  rw [← hitems.length_eq, List.length_replicate]

theorem legal_of_decode (hsrc : src.Exact) {v : Value} (h : decode src t offset = .ok v) :
    t.Legal v := by
  induction t using Ty.memberInduction generalizing offset v with
  | uint bits =>
    simp only [decode, bind_eq_ok, checked_eq_ok] at h
    obtain ⟨word, -, hcheck, rfl⟩ := h
    obtain ⟨hword, -⟩ := ite_error_eq_ok.1 hcheck
    exact .uint hword
  | int bits =>
    simp only [decode, bind_eq_ok, checked_eq_ok] at h
    obtain ⟨word, -, hcheck, rfl⟩ := h
    obtain ⟨hword, -⟩ := ite_error_eq_ok.1 hcheck
    exact .int hword
  | bool =>
    simp only [decode, bind_eq_ok, ite_throw_eq_ok] at h
    obtain ⟨word, -, -, rfl⟩ := h
    exact .bool _
  | address =>
    simp only [decode, bind_eq_ok, ite_throw_eq_ok] at h
    obtain ⟨word, -, -, rfl⟩ := h
    exact .address _
  | fixedBytes size =>
    simp only [decode, bind_eq_ok, ite_throw_eq_ok] at h
    obtain ⟨word, -, hword, rfl⟩ := h
    exact .fixedBytes hword
  | bytes bound =>
    simp only [decode, bind_eq_ok, pure_eq_ok] at h
    obtain ⟨n, hn, start, -, data, hdata, rfl⟩ := h
    refine .bytes ?_
    rw [hsrc start n data hdata]
    exact le_of_lengthAt hn
  | string bound =>
    simp only [decode, bind_eq_ok] at h
    obtain ⟨n, hn, start, -, data, hdata, h⟩ := h
    cases htext : Text.ofUtf8? data with
    | none => simp [htext] at h
    | some s =>
      simp only [htext, pure_eq_ok] at h
      subst h
      refine .string ?_
      rw [Text.utf8ByteSize_of_ofUtf8? htext, hsrc start n data hdata]
      exact le_of_lengthAt hn
  | array elem n ih =>
    simp only [decode, bind_eq_ok, pure_eq_ok] at h
    obtain ⟨items, hitems, rfl⟩ := h
    obtain ⟨rfl, hlegal⟩ := legal_of_decodeCopies ih hitems
    exact .array hlegal
  | dynArray elem bound ih =>
    simp only [decode, bind_eq_ok, pure_eq_ok] at h
    obtain ⟨n, hn, start, -, items, hitems, rfl⟩ := h
    obtain ⟨rfl, hlegal⟩ := legal_of_decodeCopies ih hitems
    exact .dynArray (le_of_lengthAt hn) hlegal
  | tuple members ih =>
    simp only [decode, bind_eq_ok, pure_eq_ok] at h
    obtain ⟨items, hitems, rfl⟩ := h
    have hlegal := legal_of_decodeMembers (fun t ht => ih t ht) hitems
    exact .tuple hlegal.length_eq fun t v hmem => (List.forall₂_iff_zip.1 hlegal).2 hmem
  | struct name fields ih =>
    simp only [decode, bind_eq_ok, pure_eq_ok] at h
    obtain ⟨items, hitems, rfl⟩ := h
    rw [decodeFields_eq] at hitems
    have hlegal := legal_of_decodeMembers (fun t ht => ih t ht) hitems
    exact .struct hlegal.length_eq fun t v hmem => (List.forall₂_iff_zip.1 hlegal).2 hmem
  | mapping key value => simp [decode] at h

/-- Every source there is gives what it is asked for.  From such a source, a decoded value of a type
without mappings has the call type, passes the check of the declared type, and can be encoded. -/
theorem encodable_of_decode :
    (∀ data, (Source.ofBytes data).Exact) ∧ (∀ image, (Source.ofMemory image).Exact) ∧
    (∀ read address base, (Source.ofStorage read address base).Exact) ∧
    ∀ (src : Source) (t : Ty) (offset : Nat) (v : Value), src.Exact → t.mappingFree = true →
      decode src t offset = .ok v →
      ∃ a, t.abiType? = some a ∧ a.matchesValue v = true ∧ t.check v = .ok () ∧
        ∃ data, Abi.encode [t] [v] = .ok data := by
  refine ⟨Source.exact_ofBytes, Source.exact_ofMemory, Source.exact_ofStorage, ?_⟩
  intro src t offset v hsrc hplain h
  obtain ⟨a, habi⟩ := Ty.exists_abiType? hplain
  have hlegal := legal_of_decode hsrc h
  have hencode := Abi.encode_of_legal (.cons habi .nil) (.cons hlegal .nil)
  exact ⟨a, habi, hlegal.matchesValue habi, hlegal.check_eq_ok, _, hencode⟩

def mixedSlots (slot : Word) : Word :=
  if slot = 1 then Word.ofInt (-1) else if slot = 2 then 1
  else if slot = 3 then Word.ofBytes (5 :: List.replicate 31 0) else 0

theorem encodable_of_decode_mixed :
    ∃ src t v, src = .ofStorage (fun _ slot => .ok (mixedSlots slot)) 1 0 ∧
      t = .tuple [.string 0, .int 8, .dynArray (.fixedBytes 1) 2] ∧
      v = .tuple [.string "", .int (Word.ofInt (-1)) 8,
        .array [.fixedBytes (Word.ofBytes (5 :: List.replicate 31 0)) 1]] ∧
      decode src t 0 = .ok v ∧ t.check v = .ok () ∧ ∃ data, Abi.encode [t] [v] = .ok data := by
  obtain ⟨-, -, hstorage, hencodable⟩ := encodable_of_decode
  have hdecode : decode (.ofStorage (fun _ slot => .ok (mixedSlots slot)) 1 0)
      (.tuple [.string 0, .int 8, .dynArray (.fixedBytes 1) 2]) 0 =
      .ok (.tuple [.string "", .int (Word.ofInt (-1)) 8,
        .array [.fixedBytes (Word.ofBytes (5 :: List.replicate 31 0)) 1]]) := by
    decide +kernel
  obtain ⟨a, -, -, hcheck, hencode⟩ :=
    hencodable _ _ 0 _ (hstorage _ 1 0) (by decide) hdecode
  exact ⟨_, _, _, rfl, rfl, rfl, hdecode, hcheck, hencode⟩

end Layout

end EvmInspect
