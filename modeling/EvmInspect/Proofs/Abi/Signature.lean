import EvmInspect.Proofs.Abi.Canonical
import EvmInspect.Proofs.Abi.Name
/-!
# Declared types and their signature

The signature of declared types is read as types that have the same call types and no bounds.  They
check no more than the declared ones, so that under the signature the same data stands for the same
values, and what is decoded under it is decoded under the declared types if it keeps their bounds.
-/

namespace EvmInspect

namespace Ty

variable {t u elem : Ty} {a : AbiType} {members : List Ty} {fields : List (String × Ty)}
  {types : List AbiType} {v : Value} {bound n : Nat}

/-! ## Types without bounds -/

/-- The second type is the call type without bounds: it has the same call type as the first and
checks no more than it. -/
structure Loosened (t : Ty) (a : AbiType) (u : Ty) : Prop where
  unbounded : a.unbounded? = some u
  abiType : u.abiType? = some a
  check : ∀ v, t.check v = .ok () → u.check v = .ok ()

theorem exists_loosened_members
    (habi : List.Forall₂ (fun t a => t.abiType? = some a) members types)
    (h : ∀ t ∈ members, ∀ a, t.abiType? = some a → ∃ u, t.Loosened a u) :
    ∃ us, AbiType.unboundedAll? types = some us ∧
      List.Forall₂ (fun u a => u.abiType? = some a) us types ∧ us.length = members.length ∧
      ∀ items, checkMembers members items = .ok () → checkMembers us items = .ok () := by
  induction habi with
  | nil => exact ⟨[], rfl, .nil, rfl, fun _ h => h⟩
  | @cons t a ts as hhead _ ih =>
    rw [List.forall_mem_cons] at h
    obtain ⟨u, hu⟩ := h.1 a hhead
    obtain ⟨us, hus, habis, hlen, hcheck⟩ := ih h.2
    refine ⟨u :: us, ?_, .cons hu.abiType habis, by simp [hlen], fun items hitems => ?_⟩
    · simp [AbiType.unboundedAll?, hu.unbounded, hus]
    · cases items with
      | nil =>
        rw [checkMembers]
        simp
      | cons v vs =>
        rw [checkMembers] at hitems ⊢
        cases hv : t.check v with
        | error e => simp [hv] at hitems
        | ok =>
          rw [hv] at hitems
          rw [hu.check v hv]
          exact hcheck vs hitems

theorem exists_loosened_tuple (habi : abiTypes? members = some types)
    (h : ∀ t ∈ members, ∀ a, t.abiType? = some a → ∃ u, t.Loosened a u) :
    ∃ u, (Ty.tuple members).Loosened (.tuple types) u := by
  obtain ⟨us, hus, habis, hlen, hcheck⟩ := exists_loosened_members (abiTypes?_eq_some habi) h
  refine ⟨.tuple us, ?_, ?_, fun v hv => ?_⟩
  · rw [AbiType.unbounded?, hus]
    rfl
  · rw [abiType?, abiTypes?_of_forall₂ habis]
    rfl
  · obtain ⟨items, rfl, hcount, hitems⟩ := check_tuple_eq_ok.1 hv
    exact check_tuple_eq_ok.2 ⟨items, rfl, hlen.trans hcount, hcheck items hitems⟩

theorem exists_loosened (habi : t.abiType? = some a) (hbounds : t.addressable = true) :
    ∃ u, t.Loosened a u := by
  unfold addressable at hbounds
  induction t using memberInduction generalizing a with
  | uint bits | int bits | bool | address | fixedBytes size =>
    simp only [abiType?, Option.some.injEq] at habi
    subst habi
    exact ⟨_, rfl, rfl, fun _ h => h⟩
  | bytes bound =>
    have hle : bound ≤ Size.limit := of_decide_eq_true hbounds
    simp only [abiType?, Option.some.injEq] at habi
    subst habi
    refine ⟨.bytes Size.limit, rfl, rfl, fun v h => ?_⟩
    obtain ⟨data, rfl, hlen⟩ := check_bytes_eq_ok.1 h
    exact check_bytes_eq_ok.2 ⟨data, rfl, hlen.trans hle⟩
  | string bound =>
    have hle : bound ≤ Size.limit := of_decide_eq_true hbounds
    simp only [abiType?, Option.some.injEq] at habi
    subst habi
    refine ⟨.string Size.limit, rfl, rfl, fun v h => ?_⟩
    obtain ⟨s, rfl, hlen⟩ := check_string_eq_ok.1 h
    exact check_string_eq_ok.2 ⟨s, rfl, hlen.trans hle⟩
  | array elem n ih =>
    simp only [everywhere, Bool.and_eq_true] at hbounds
    simp only [abiType?, Option.map_eq_some_iff] at habi
    obtain ⟨e, he, rfl⟩ := habi
    obtain ⟨u, hu⟩ := ih he hbounds.2
    refine ⟨.array u n, ?_, ?_, fun v h => ?_⟩
    · rw [AbiType.unbounded?, hu.unbounded]
      rfl
    · rw [abiType?, hu.abiType]
      rfl
    · obtain ⟨items, rfl, hlen, hitems⟩ := check_array_eq_ok.1 h
      exact check_array_eq_ok.2 ⟨items, rfl, hlen, fun v hv => hu.check v (hitems v hv)⟩
  | dynArray elem bound ih =>
    simp only [everywhere, Bool.and_eq_true] at hbounds
    have hle : bound ≤ Size.limit := of_decide_eq_true hbounds.1
    simp only [abiType?, Option.map_eq_some_iff] at habi
    obtain ⟨e, he, rfl⟩ := habi
    obtain ⟨u, hu⟩ := ih he hbounds.2
    refine ⟨.dynArray u Size.limit, ?_, ?_, fun v h => ?_⟩
    · rw [AbiType.unbounded?, hu.unbounded]
      rfl
    · rw [abiType?, hu.abiType]
      rfl
    · obtain ⟨items, rfl, hlen, hitems⟩ := check_dynArray_eq_ok.1 h
      exact check_dynArray_eq_ok.2
        ⟨items, rfl, hlen.trans hle, fun v hv => hu.check v (hitems v hv)⟩
  | tuple members ih =>
    obtain ⟨-, hbounds⟩ := everywhere_tuple hbounds
    simp only [abiType?, Option.map_eq_some_iff] at habi
    obtain ⟨types, htypes, rfl⟩ := habi
    exact exists_loosened_tuple htypes fun t ht a ha => ih t ht ha (hbounds t ht)
  | struct name fields ih =>
    obtain ⟨-, hbounds⟩ := everywhere_struct hbounds
    simp only [abiType?, Option.map_eq_some_iff] at habi
    obtain ⟨types, htypes, rfl⟩ := habi
    rw [fieldAbiTypes?_eq] at htypes
    obtain ⟨u, hu⟩ := exists_loosened_tuple htypes fun t ht a ha => ih t ht ha (hbounds t ht)
    refine ⟨u, hu.unbounded, hu.abiType, fun v h => hu.check v ?_⟩
    obtain ⟨items, rfl, hlen, hitems⟩ := check_struct_eq_ok.1 h
    exact check_tuple_eq_ok.2 ⟨items, rfl, hlen, hitems⟩
  | mapping => simp [abiType?] at habi

/-! ## Names of call types -/

theorem nameable_tuple (hlen : members.length = types.length)
    (hsized : ∀ t ∈ members, t.wellSized = true) (hbounds : ∀ t ∈ members, t.addressable = true)
    (h : ∀ t a, (t, a) ∈ members.zip types → t.wellSized = true → t.addressable = true →
      a.Nameable) : (AbiType.tuple types).Nameable := by
  refine .tuple (forall_of_forall₂ (forall₂_of_zip hlen fun t a hmem => ?_))
  have ht := (List.of_mem_zip hmem).1
  exact h t a hmem (hsized t ht) (hbounds t ht)

/-- Where widths can be written, lengths are addressable and nothing is empty, the name of the call
type can be read. -/
theorem HasCallType.nameable (h : t.HasCallType a) (hsized : t.wellSized = true)
    (hbounds : t.addressable = true) : a.Nameable := by
  unfold wellSized at hsized
  unfold addressable at hbounds
  induction h with
  | uint => exact .uint (of_decide_eq_true hsized)
  | int => exact .int (of_decide_eq_true hsized)
  | fixedBytes => exact .fixedBytes (of_decide_eq_true hsized)
  | bool | address | bytes | string => constructor
  | array hn _ ih =>
    simp only [everywhere, Bool.and_eq_true] at hsized hbounds
    exact .fixedArray hn (of_decide_eq_true hbounds.1) (ih hsized.2 hbounds.2)
  | dynArray _ _ ih =>
    simp only [everywhere, Bool.and_eq_true] at hsized hbounds
    exact .array (ih hsized.2 hbounds.2)
  | tuple _ hlen _ ih =>
    exact nameable_tuple hlen (everywhere_tuple hsized).2 (everywhere_tuple hbounds).2 ih
  | struct _ _ hlen _ ih =>
    exact nameable_tuple hlen (everywhere_struct hsized).2 (everywhere_struct hbounds).2 ih

end Ty

namespace Abi

variable {types us : List Ty} {abi : List AbiType} {data : List UInt8} {values : List Value}
  {signature : String}

/-! ## Encoding and decoding as checks of members -/

theorem encode_eq_ok_iff : encode types values = .ok data ↔ ∃ abi, abiTypes types = .ok abi ∧
    List.Forall₂ (fun a v => a.matchesValue v = true) abi values ∧
    Ty.checkMembers types values = .ok () ∧ data = Value.encodeAll values := by
  constructor
  · intro h
    obtain ⟨abi, habi, hmatch, hcheck, hdata⟩ := encode_eq_ok h
    exact ⟨abi, habi, hmatch, Ty.checkMembers_of_forall₂ hcheck, hdata⟩
  · rintro ⟨abi, habi, hmatch, hcheck, rfl⟩
    have htypes := abiTypes_eq_ok habi
    have hchecks := Ty.checkMembers_eq_ok (htypes.length_eq.trans hmatch.length_eq) hcheck
    exact encode_of_legal htypes (Ty.legal_of_forall₂ (fun t _ => t.decided) htypes hmatch hchecks)

theorem checkMembers_eq_ok_iff : Ty.checkMembers types values = .ok () ↔
    ∀ t v, (t, v) ∈ types.zip values → t.check v = .ok () := by
  induction types generalizing values with
  | nil => rw [Ty.checkMembers] <;> simp
  | cons t ts ih =>
    cases values with
    | nil => rw [Ty.checkMembers] <;> simp
    | cons v vs =>
      rw [Ty.checkMembers]
      cases hv : t.check v with
      | error e => simpa using ⟨t, v, .inl ⟨rfl, rfl⟩, by simp [hv]⟩
      | ok => simp [hv, ih, or_imp, forall_and]

/-! ## The codec of a signature -/

/-- A signature that is read as a list of types stands for these without bounds. -/
theorem parameters_eq_ok (hparse : AbiType.parse signature = some (.tuple abi))
    (hus : AbiType.unboundedAll? abi = some us) : parameters signature = .ok us := by
  simp [parameters, hparse, hus]

/-- Declared types and their signature have the same codec up to bounds.  The signature is read back
unless it nests too many lists.  Once it is, what is encoded under the types is encoded to the same
data under it, and data is decoded under the types exactly if it is decoded to the same values under
it and these are legal for the types. -/
theorem tupleSignature_codec (hplain : ∀ t ∈ types, t.mappingFree = true)
    (hbounds : ∀ t ∈ types, t.addressable = true) :
    ∃ abi signature, abiTypes types = .ok abi ∧ tupleSignature types = .ok signature ∧
      ((∀ t ∈ types, t.wellSized = true ∧ t.solid = true) →
        (AbiType.parse signature = some (.tuple abi) ↔
          (AbiType.tuple abi).lists < AbiType.listLimit)) ∧
      (AbiType.parse signature = some (.tuple abi) →
        (∀ values data, encode types values = .ok data →
          encodeSignature signature values = .ok data) ∧
        ∀ data values, decode types data = .ok values ↔
          decodeSignature signature data = .ok values ∧
            ∀ t v, (t, v) ∈ types.zip values → t.check v = .ok ()) := by
  obtain ⟨abi, htypes⟩ := exists_forall₂ fun t ht => Ty.exists_abiType? (hplain t ht)
  have habi := abiTypes_of_forall₂ htypes
  refine ⟨abi, signatureOf abi, habi, by rw [tupleSignature, habi]; rfl, ?_, ?_⟩
  · intro hshape
    have hcalls := callTypes_of_solid (fun t ht => (hshape t ht).2) htypes
    refine AbiType.parse_signatureOf_iff (forall_of_forall₂ (forall₂_of_zip hcalls.length_eq ?_))
    intro t a hmem
    have ht := (List.of_mem_zip hmem).1
    exact ((List.forall₂_iff_zip.1 hcalls).2 hmem).nameable (hshape t ht).1 (hbounds t ht)
  · intro hparse
    obtain ⟨us, hus, hunbounded, -, hcheck⟩ := Ty.exists_loosened_members htypes
      fun t ht a ha => Ty.exists_loosened ha (hbounds t ht)
    have hparameters := parameters_eq_ok hparse hus
    have habis := abiTypes_of_forall₂ hunbounded
    constructor
    · intro values data h
      obtain ⟨abi', habi', hmatch, hmembers, rfl⟩ := encode_eq_ok_iff.1 h
      rw [habi, Except.ok.injEq] at habi'
      subst habi'
      rw [encodeSignature, hparameters]
      exact encode_eq_ok_iff.2 ⟨abi, habis, hmatch, hcheck values hmembers, rfl⟩
    · intro data values
      have hdecode : decodeSignature (signatureOf abi) data = decode us data := by
        rw [decodeSignature, hparameters]
        rfl
      rw [hdecode, decode_eq_ok, decode_eq_ok, ← checkMembers_eq_ok_iff, habi, habis]
      simp only [Except.ok.injEq, exists_eq_left', checkResults_eq_ok_iff]
      constructor
      · rintro ⟨hdata, hread, hmembers⟩
        exact ⟨⟨hdata, hread, hcheck values hmembers⟩, hmembers⟩
      · rintro ⟨⟨hdata, hread, -⟩, hmembers⟩
        exact ⟨hdata, hread, hmembers⟩

def coordinate : List Ty := [.struct "Coordinate" [("x", .int 16)], .bytes 2]

/-- Under the signature of the two, a longer byte string is decoded as well. -/
theorem tupleSignature_codec_coordinate :
    tupleSignature coordinate = .ok "((int16,),bytes)" ∧
      encodeSignature "((int16,),bytes)" [.tuple [.int 7 16], .bytes [1, 2]] =
        .ok (Value.encodeAll [.tuple [.int 7 16], .bytes [1, 2]]) ∧
      ∀ data values, decode coordinate data = .ok values →
        decodeSignature "((int16,),bytes)" data = .ok values := by
  obtain ⟨abi, signature, habi, hsignature, hparse, hcodec⟩ :=
    @tupleSignature_codec coordinate (by decide) (by decide)
  cases habi
  have hsame : tupleSignature coordinate = .ok "((int16,),bytes)" := by decide +kernel
  rw [hsame, Except.ok.injEq] at hsignature
  subst hsignature
  obtain ⟨hencode, hdecode⟩ := hcodec ((hparse (by decide)).2 (by decide +kernel))
  refine ⟨hsame, hencode _ _ rfl, fun data values h => ((hdecode data values).1 h).1⟩

end Abi

end EvmInspect
