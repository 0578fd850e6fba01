import EvmInspect.Proofs.Abi.Decoded
import EvmInspect.Proofs.Abi.Strict
/-!
# Decoded values can be sent back

What is decoded, from whatever payload, is legal and fits its call type, and nests no deeper than
the reader has followed the payload.  So it is encoded again, and its encoding, in which nothing
overlaps and nothing is left over, is decoded to the same values.
-/

namespace EvmInspect

namespace Abi

variable {a : AbiType} {types : List Ty} {abi : List AbiType} {region data body : List UInt8}
  {values items : List Value} {v : Value} {pos depth next last : Nat}

/-! ## How deep the reader gets -/

theorem depth_of_inner (h : inner region pos depth = .ok (body, next)) :
    next = depth + 1 ∧ next ≤ depthLimit := by
  obtain ⟨level, hlevel, h⟩ := ok_of_bind h
  rw [deeper] at hlevel
  split at hlevel
  · cases hlevel
    simp only [ite_throw_eq_ok, Prod.mk.injEq] at h
    omega
  · simp at hlevel

theorem depth_of_follow (h : follow region pos depth = .ok (body, next)) :
    next = depth + 1 ∧ next ≤ depthLimit := by
  obtain ⟨offset, -, h⟩ := ok_of_bind h
  exact depth_of_inner h

/-- Within the limit, the reader reads no value of the type that nests deeper than the limit. -/
def ReadsWithin (a : AbiType) : Prop :=
  ∀ {region : List UInt8} {pos depth next : Nat} {v : Value}, depth ≤ depthLimit →
    readValue a region pos depth = .ok (v, next) → depth + v.nesting ≤ depthLimit

theorem nestings_of_readMembers (hwithin : ∀ a ∈ abi, ReadsWithin a) (hdepth : depth ≤ depthLimit)
    (h : readMembers abi region pos depth = .ok (items, last)) :
    depth + Value.nestings items ≤ depthLimit := by
  induction abi generalizing pos items last with
  | nil =>
    simp only [readMembers, Except.ok.injEq, Prod.mk.injEq] at h
    rw [← h.1, Value.nestings]
    exact hdepth
  | cons a as ih =>
    rw [List.forall_mem_cons] at hwithin
    simp only [readMembers, bind_eq_ok, pure_eq_ok, Prod.exists, Prod.mk.injEq] at h
    obtain ⟨v, next, hv, vs, end', hvs, rfl, -⟩ := h
    have hhead := hwithin.1 hdepth hv
    have htail := ih hwithin.2 hvs
    rw [Value.nestings]
    omega

theorem nestings_of_readCopies (hwithin : ReadsWithin a) {n : Nat} (hdepth : depth ≤ depthLimit)
    (h : readCopies (fun p => readValue a region p depth) n pos = .ok (items, last)) :
    depth + Value.nestings items ≤ depthLimit := by
  rw [← readMembers_replicate] at h
  refine nestings_of_readMembers (fun b hb => ?_) hdepth h
  rw [List.eq_of_mem_replicate hb]
  exact hwithin

/-- A sequence costs the level of its own region. -/
theorem nestings_of_readSequence {indirect : Bool}
    {read : List UInt8 → Nat → Except ReadFault (List Value × Nat)}
    (hread : ∀ {body depth items last}, depth ≤ depthLimit → read body depth = .ok (items, last) →
      depth + Value.nestings items ≤ depthLimit)
    (h : readSequence indirect read region pos depth = .ok (items, last)) :
    depth + (1 + Value.nestings items) ≤ depthLimit := by
  rw [readSequence_eq, bind_eq_ok] at h
  obtain ⟨⟨body, level⟩, henter, h⟩ := h
  obtain ⟨⟨found, size⟩, hitems, hresult⟩ := map_eq_ok.1 h
  simp only [Prod.mk.injEq] at hresult
  obtain ⟨rfl, -⟩ := hresult
  have hlevel : level = depth + 1 ∧ level ≤ depthLimit := by
    unfold enter at henter
    split at henter
    · exact depth_of_follow henter
    · exact depth_of_inner henter
  have hnestings := hread hlevel.2 hitems
  omega

theorem nesting_array_le (items : List Value) :
    (Value.array items).nesting ≤ 2 + Value.nestings items := by
  cases items with
  | nil => rw [Value.nesting]; omega
  | cons v vs => rw [Value.nesting]

theorem readsWithin (a : AbiType) : ReadsWithin a := by
  induction a using AbiType.memberInduction with
  | bool | int | uint | fixedBytes | address | function =>
    intro region pos depth next v hdepth h
    simp only [readValue, bind_eq_ok, pure_eq_ok, Prod.mk.injEq] at h
    obtain ⟨word, -, rfl, -⟩ := h
    simpa [Value.nesting] using hdepth
  | bytes | string =>
    intro region pos depth next v hdepth h
    simp only [readValue, bind_eq_ok, pure_eq_ok, Prod.exists, Prod.mk.injEq] at h
    obtain ⟨body, level, hfollow, data, -, rfl, -⟩ := h
    have hlevel := depth_of_follow hfollow
    rw [Value.nesting]
    omega
  | array elem ih =>
    intro region pos depth next v hdepth h
    rw [readValue] at h
    obtain ⟨⟨body, level⟩, hfollow, h⟩ := ok_of_bind h
    obtain ⟨n, -, h⟩ := ok_of_bind h
    have hlevel := depth_of_follow hfollow
    split at h
    · cases h
      rw [Value.nesting]
      omega
    · obtain ⟨⟨elements, level'⟩, hinner, h⟩ := ok_of_bind h
      obtain ⟨⟨items, last⟩, hitems, h⟩ := ok_of_bind h
      cases h
      have hlevel' := depth_of_inner hinner
      have hnestings := nestings_of_readCopies ih hlevel'.2 hitems
      have harray := nesting_array_le items
      omega
  | fixedArray elem n ih =>
    intro region pos depth next v hdepth h
    rw [readValue] at h
    obtain ⟨⟨items, last⟩, hitems, h⟩ := ok_of_bind h
    cases h
    rw [Value.nesting]
    exact nestings_of_readSequence (nestings_of_readCopies ih) hitems
  | tuple members ih | struct name fieldNames members ih =>
    intro region pos depth next v hdepth h
    rw [readValue] at h
    obtain ⟨⟨items, last⟩, hitems, h⟩ := ok_of_bind h
    cases h
    rw [Value.nesting]
    exact nestings_of_readSequence (nestings_of_readMembers ih) hitems

/-! ## What is decoded -/

theorem matchesValue_of_fits (h : a.Fits v) : a.matchesValue v = true := by
  induction h with
  | bool | int | uint | fixedBytes | address | bytes | string => simp [AbiType.matchesValue]
  | array _ _ _ ih =>
    rw [AbiType.matchesValue, List.all_eq_true]
    exact ih
  | fixedArray _ _ _ ih =>
    rw [AbiType.matchesValue, beq_self_eq_true, Bool.true_and, List.all_eq_true]
    exact ih
  | tuple _ hlen _ ih =>
    rw [AbiType.matchesValue]
    exact Ty.allMatch_of_forall₂ (forall₂_of_zip hlen ih)

theorem read_eq_ok (h : List.Forall₂ Ty.HasCallType types abi) :
    read abi data = .ok values ↔ ∃ last, readMembers abi data 0 0 = .ok (values, last) := by
  unfold read
  cases h with
  | nil => simp [AbiType.allEmpty, readMembers, eq_comm]
  | cons hhead _ =>
    rw [AbiType.allEmpty, hhead.isEmpty_eq, Bool.false_and]
    simp [map_eq_ok]

theorem callTypes_of_solid (hsolid : ∀ t ∈ types, t.solid = true)
    (habi : List.Forall₂ (fun t a => t.abiType? = some a) types abi) :
    List.Forall₂ Ty.HasCallType types abi :=
  forall₂_of_zip habi.length_eq fun t _ hmem =>
    Ty.hasCallType_of_abiType? (hsolid t (List.of_mem_zip hmem).1)
      ((List.forall₂_iff_zip.1 habi).2 hmem)

theorem fits_of_read (h : List.Forall₂ Ty.HasCallType types abi) (hcheck : check abi data = .ok ())
    (hread : read abi data = .ok values) : List.Forall₂ AbiType.Fits abi values := by
  obtain ⟨head, hmembers⟩ := of_checkValue_tuple hcheck
  obtain ⟨last, hvalues⟩ := (read_eq_ok h).1 hread
  rcases readMembers_of_checkMembers (h.imp fun _ _ ha => reads ha) 0 (List.prefix_refl data)
    hmembers with hdeep | ⟨items, hitems, hfits, -⟩
  · simp [hvalues] at hdeep
  · rw [hvalues] at hitems
    cases hitems
    exact hfits

theorem nestings_of_read (h : List.Forall₂ Ty.HasCallType types abi)
    (hread : read abi data = .ok values) : Value.nestings values ≤ depthLimit := by
  obtain ⟨last, hvalues⟩ := (read_eq_ok h).1 hread
  have hnestings := nestings_of_readMembers (fun a _ => readsWithin a) (Nat.zero_le _) hvalues
  omega

theorem checkResults_eq_ok_iff {index : Nat} : checkResults index types values = .ok () ↔
    Ty.checkMembers types values = .ok () := by
  obtain ⟨hok, herror⟩ := checkResults_of_checkMembers types values index
  cases hcheck : Ty.checkMembers types values with
  | ok => simp [hok hcheck]
  | error e =>
    obtain ⟨place, hplace⟩ := herror e hcheck
    simp [hplace]

/-- Under types in which nothing is empty, decoding gives the values that the reader reads from
accepted data, provided that they are legal. -/
theorem decode_eq_ok_iff_legal (hsolid : ∀ t ∈ types, t.solid = true) :
    decode types data = .ok values ↔ ∃ abi, abiTypes types = .ok abi ∧ check abi data = .ok () ∧
      read abi data = .ok values ∧ List.Forall₂ Ty.Legal types values := by
  rw [decode_eq_ok]
  refine exists_congr fun abi => and_congr_right fun habi => and_congr_right fun hcheck =>
    and_congr_right fun hread => ?_
  constructor
  · intro hresults
    have htypes := abiTypes_eq_ok habi
    have hfits := fits_of_read (callTypes_of_solid hsolid htypes) hcheck hread
    exact Ty.legal_of_forall₂ (fun t _ => t.decided) htypes
      (hfits.imp fun _ _ hv => matchesValue_of_fits hv)
      (Ty.checkMembers_eq_ok (htypes.length_eq.trans hfits.length_eq)
        (checkResults_eq_ok_iff.1 hresults))
  · intro hlegal
    exact checkResults_of_forall₂ (hlegal.imp fun _ _ hv => hv.check_eq_ok) 0

/-- Decoding undoes encoding: under types whose widths can be written and in which nothing is
empty, an addressable encoding that nests no deeper than the reader follows gives exactly its values
back, provided that the elements of every array among them are measured. -/
theorem decode_encode (hsized : ∀ t ∈ types, t.wellSized = true)
    (hsolid : ∀ t ∈ types, t.solid = true) (h : encode types values = .ok data)
    (hlen : data.length ≤ Size.limit) (hdepth : Value.nestings values ≤ depthLimit) :
    ∃ abi, abiTypes types = .ok abi ∧
      (decode types data = .ok values ↔ AbiType.allMeasure abi values = true) := by
  obtain ⟨abi, habi, hmatch, hchecked, rfl⟩ := encode_eq_ok h
  have htypes := abiTypes_eq_ok habi
  have hlegal := Ty.legal_of_forall₂ (fun t _ => t.decided) htypes hmatch hchecked
  refine ⟨abi, habi, fun hdecode => ?_, fun hmeasures => ?_⟩
  · obtain ⟨abi', habi', hcheck, hread, -⟩ := (decode_eq_ok_iff_legal hsolid).1 hdecode
    rw [habi, Except.ok.injEq] at habi'
    subst habi'
    exact AbiType.allMeasure_of_fits (fits_of_read (callTypes_of_solid hsolid htypes) hcheck hread)
  · exact decode_encodeAll htypes hsized hsolid hlegal hmeasures hlen hdepth

/-- A member with a text in it and an array of tuples come back. -/
theorem decode_encode_nested :
    decode [.tuple [.uint 8, .string 8], .dynArray (.tuple [.int 16, .array (.bytes 4) 1]) 3]
        (Value.encodeAll
          [.tuple [.uint 7 8, .string "hi"],
           .array [.tuple [.int (Word.ofInt (-1)) 16, .fixedArray [.bytes [1, 2]]]]]) =
      .ok
        [.tuple [.uint 7 8, .string "hi"],
         .array [.tuple [.int (Word.ofInt (-1)) 16, .fixedArray [.bytes [1, 2]]]]] := by
  obtain ⟨abi, habi, h⟩ := @decode_encode
    [.tuple [.uint 8, .string 8], .dynArray (.tuple [.int 16, .array (.bytes 4) 1]) 3] _
    [.tuple [.uint 7 8, .string "hi"],
     .array [.tuple [.int (Word.ofInt (-1)) 16, .fixedArray [.bytes [1, 2]]]]]
    (by decide) (by decide) rfl (by decide +kernel) (by decide)
  cases habi
  exact h.2 (by decide)

/-- Arrays of two arrays of numbers, of which the first takes one byte more than can be
addressed. -/
def bulky : Ty := .dynArray (.tuple [.array (.uint 256) 576460752303423488, .array (.uint 256) 2]) 3

/-- No array of these can be decoded, though one without elements is encoded; nor can an integer of
a width that no text writes. -/
theorem decode_encode_bulky :
    (encode [bulky] [.array []] = .ok (Value.numberWord 32 ++ Value.numberWord 0) ∧
      decode [bulky] (Value.numberWord 32 ++ Value.numberWord 0) =
        .error (.decoding "((uint256[576460752303423488],uint256[2])[])" (.malformed .oversized))) ∧
    encode [.int 12] [.int 2047 12] = .ok (Value.numberWord 2047) ∧
      decode [.int 12] (Value.numberWord 2047) =
        .error (.decoding "(int12)" (.malformed (.signedRange 0 12))) := by
  decide +kernel

/-- Decoded values can be sent back: they are encoded under the same types, and if the encoding is
addressable, it is decoded to them again. -/
theorem exists_canonical (hsolid : ∀ t ∈ types, t.solid = true)
    (h : decode types data = .ok values) :
    ∃ canonical, encode types values = .ok canonical ∧
      (canonical.length ≤ Size.limit → decode types canonical = .ok values) := by
  obtain ⟨abi, habi, hcheck, hread, hlegal⟩ := (decode_eq_ok_iff_legal hsolid).1 h
  have htypes := abiTypes_eq_ok habi
  have hcalls := callTypes_of_solid hsolid htypes
  have hfits := fits_of_read hcalls hcheck hread
  refine ⟨Value.encodeAll values, encode_of_legal htypes hlegal, fun hlen => ?_⟩
  exact (decode_eq_ok_iff_legal hsolid).2 ⟨abi, habi, check_encodeAll hfits hlen,
    read_encodeAll hfits hlen (nestings_of_read hcalls hread), hlegal⟩

/-- Two byte strings in one place, with something behind them. -/
def overlapping : List UInt8 :=
  Value.numberWord 64 ++ Value.numberWord 64 ++ Value.numberWord 2 ++ [1, 2, 255]

/-- Both are decoded, and sent back in two places. -/
theorem exists_canonical_overlapping :
    decode [.bytes 4, .bytes 4] overlapping = .ok [.bytes [1, 2], .bytes [1, 2]] ∧
      ∃ canonical, canonical ≠ overlapping ∧
        encode [.bytes 4, .bytes 4] [.bytes [1, 2], .bytes [1, 2]] = .ok canonical ∧
        decode [.bytes 4, .bytes 4] canonical = .ok [.bytes [1, 2], .bytes [1, 2]] := by
  have hdecode : decode [.bytes 4, .bytes 4] overlapping =
      .ok [.bytes [1, 2], .bytes [1, 2]] := by decide +kernel
  refine ⟨hdecode, ?_⟩
  obtain ⟨canonical, hcanonical, hback⟩ := exists_canonical (by decide) hdecode
  have hencode : encode [.bytes 4, .bytes 4] [.bytes [1, 2], .bytes [1, 2]] =
      .ok (Value.encodeAll [.bytes [1, 2], .bytes [1, 2]]) := rfl
  have hsame := hcanonical
  rw [hencode, Except.ok.injEq] at hsame
  refine ⟨canonical, ?_, hcanonical, hback ?_⟩
  · rw [← hsame]
    decide +kernel
  · rw [← hsame]
    decide +kernel

end Abi

end EvmInspect
