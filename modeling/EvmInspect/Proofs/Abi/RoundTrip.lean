import EvmInspect.Abi.Codec
import EvmInspect.Proofs.Abi.CallType
import EvmInspect.Proofs.Abi.Read
import EvmInspect.Proofs.Ty.Legal
/-!
# Call data round trip

What the encoder accepts fits the types of the call interface, so that the check lets its encoding
pass and the reader gives it back.
-/

namespace EvmInspect

namespace Ty

/-! ## What the encoder accepts -/

theorem fits_tuple {members : List Ty} {types : List AbiType} {items : List Value}
    (hne : members ≠ []) (habi : abiTypes? members = some types)
    (hlen : members.length = items.length) (hmeasures : AbiType.allMeasure types items = true)
    (h : ∀ t v, (t, v) ∈ members.zip items → ∀ a, t.abiType? = some a → a.measures v = true →
      a.Fits v) :
    AbiType.Fits (.tuple types) (.tuple items) := by
  have htypes := abiTypes?_eq_some habi
  have hfit : List.Forall₂ (fun a v => a.measures v = true → a.Fits v) types items :=
    forall₂_of_common htypes (forall₂_of_zip hlen h) fun t _ a v ha hv => hv a ha
  refine .tuple ?_ hfit.length_eq fun a v hmem =>
    (List.forall₂_iff_zip.1 hfit).2 hmem (AbiType.allMeasure_iff.1 hmeasures a v hmem)
  intro hnil
  exact hne (List.length_eq_zero_iff.1 (by rw [htypes.length_eq, hnil]; rfl))

theorem Legal.fits {t : Ty} {a : AbiType} {v : Value} (h : t.Legal v) (hw : t.wellSized = true)
    (hs : t.solid = true) (habi : t.abiType? = some a) (hm : a.measures v = true) : a.Fits v := by
  induction h generalizing a with
  | uint hword =>
    simp only [abiType?, Option.some.injEq] at habi
    exact habi ▸ .uint hword
  | int hword =>
    rw [wellSized_int] at hw
    simp only [abiType?, Option.some.injEq] at habi
    exact habi ▸ .int (by rw [signExtended_toBytes _ hw.1 hw.2.1 hw.2.2, hword])
  | fixedBytes hword =>
    simp only [abiType?, Option.some.injEq] at habi
    exact habi ▸ .fixedBytes hword
  | bool | address | bytes | string =>
    simp only [abiType?, Option.some.injEq] at habi
    subst habi
    constructor
  | array _ ih =>
    rw [wellSized_array] at hw
    simp only [solid, everywhere, hasMember, Bool.and_eq_true, bne_iff_ne] at hs
    simp only [abiType?, Option.map_eq_some_iff] at habi
    obtain ⟨e, he, rfl⟩ := habi
    rw [AbiType.measures, Bool.and_eq_true, List.all_eq_true] at hm
    exact .fixedArray (fun hnil => hs.1 (by rw [hnil]; rfl)) hm.1 fun v hv =>
      ih v hv hw hs.2 he (hm.2 v hv)
  | dynArray _ _ ih =>
    rw [wellSized_dynArray] at hw
    simp only [solid, everywhere, Bool.and_eq_true] at hs
    simp only [abiType?, Option.map_eq_some_iff] at habi
    obtain ⟨e, he, rfl⟩ := habi
    rw [AbiType.measures, Bool.and_eq_true, List.all_eq_true] at hm
    exact .array (hasCallType_of_abiType? hs.2 he).isEmpty_eq hm.1 fun v hv =>
      ih v hv hw hs.2 he (hm.2 v hv)
  | tuple hlen _ ih =>
    obtain ⟨hne, hs⟩ := everywhere_tuple hs
    obtain ⟨-, hw⟩ := everywhere_tuple hw
    simp only [abiType?, Option.map_eq_some_iff] at habi
    obtain ⟨types, htypes, rfl⟩ := habi
    rw [AbiType.measures] at hm
    refine fits_tuple (by simpa [hasMember] using hne) htypes hlen hm fun t v hmem a ha hv => ?_
    have ht := (List.of_mem_zip hmem).1
    exact ih t v hmem (hw t ht) (hs t ht) ha hv
  | struct hlen _ ih =>
    obtain ⟨hne, hs⟩ := everywhere_struct hs
    obtain ⟨-, hw⟩ := everywhere_struct hw
    simp only [abiType?, Option.map_eq_some_iff] at habi
    obtain ⟨types, htypes, rfl⟩ := habi
    rw [fieldAbiTypes?_eq] at htypes
    rw [AbiType.measures] at hm
    refine fits_tuple (by simpa [hasMember] using hne) htypes hlen hm fun t v hmem a ha hv => ?_
    have ht := (List.of_mem_zip hmem).1
    exact ih t v hmem (hw t ht) (hs t ht) ha hv

end Ty

namespace Abi

open Value (parts)

/-! ## The arguments of a call -/

theorem abiTypes_eq_ok {types : List Ty} {abi : List AbiType} (h : abiTypes types = .ok abi) :
    List.Forall₂ (fun t a => t.abiType? = some a) types abi := by
  induction types generalizing abi with
  | nil =>
    rw [abiTypes, Except.ok.injEq] at h
    exact h ▸ .nil
  | cons t ts ih =>
    rw [abiTypes] at h
    cases ht : t.abiType? with
    | none => simp [ht] at h
    | some a =>
      cases hts : abiTypes ts with
      | error e => simp [ht, hts] at h
      | ok as =>
        simp only [ht, hts, Except.ok.injEq] at h
        exact h ▸ .cons ht (ih hts)

theorem checkArguments_eq_ok {types : List Ty} {abi : List AbiType} {values : List Value}
    (habi : List.Forall₂ (fun t a => t.abiType? = some a) types abi)
    (hlen : types.length = values.length) {index : Nat}
    (h : checkArguments index types abi values = .ok ()) :
    List.Forall₂ (fun a v => a.matchesValue v = true) abi values ∧
      List.Forall₂ (fun t v => t.check v = .ok ()) types values := by
  induction habi generalizing values index with
  | nil =>
    rw [List.length_nil] at hlen
    rw [List.length_eq_zero_iff.1 hlen.symm]
    exact ⟨.nil, .nil⟩
  | @cons t a ts as _ _ ih =>
    cases values with
    | nil => simp at hlen
    | cons v vs =>
      rw [checkArguments] at h
      split at h
      · cases hv : t.check v with
        | error e => simp [hv] at h
        | ok u =>
          rw [hv] at h
          obtain ⟨hmatch, hlegal⟩ := ih (Nat.succ.inj hlen) h
          exact ⟨.cons ‹_› hmatch, .cons hv hlegal⟩
      · simp at h

theorem encode_eq_ok {types : List Ty} {values : List Value} {data : List UInt8}
    (h : encode types values = .ok data) :
    ∃ abi, abiTypes types = .ok abi ∧
      List.Forall₂ (fun a v => a.matchesValue v = true) abi values ∧
      List.Forall₂ (fun t v => t.check v = .ok ()) types values ∧
      data = Value.encodeAll values := by
  rw [encode] at h
  obtain ⟨abi, habi, h⟩ := ok_of_bind h
  simp only at h
  split at h
  · rename_i hlen
    split at h
    · rename_i hargs
      simp only [pure, Except.pure, Except.ok.injEq] at h
      obtain ⟨hmatch, hlegal⟩ := checkArguments_eq_ok (abiTypes_eq_ok habi) hlen hargs
      exact ⟨abi, habi, hmatch, hlegal, h.symm⟩
    · simp [throw, throwThe, MonadExceptOf.throw] at h
  · simp [throw, throwThe, MonadExceptOf.throw] at h

theorem abiTypes_of_forall₂ {types : List Ty} {abi : List AbiType}
    (h : List.Forall₂ (fun t a => t.abiType? = some a) types abi) : abiTypes types = .ok abi := by
  induction h with
  | nil => rfl
  | cons hhead _ ih => rw [abiTypes, hhead, ih]

theorem checkArguments_of_legal {types : List Ty} {abi : List AbiType} {values : List Value}
    (habi : List.Forall₂ (fun t a => t.abiType? = some a) types abi)
    (h : List.Forall₂ Ty.Legal types values) (index : Nat) :
    checkArguments index types abi values = .ok () := by
  induction h generalizing abi index with
  | nil => rw [checkArguments]; simp
  | cons hhead _ ih =>
    obtain ⟨a, as, ha, has, rfl⟩ := List.forall₂_cons_left_iff.1 habi
    rw [checkArguments, if_pos (hhead.matchesValue ha), hhead.check_eq_ok]
    exact ih has (index + 1)

theorem encode_of_legal {types : List Ty} {abi : List AbiType} {values : List Value}
    (habi : List.Forall₂ (fun t a => t.abiType? = some a) types abi)
    (h : List.Forall₂ Ty.Legal types values) :
    encode types values = .ok (Value.encodeAll values) := by
  rw [encode, abiTypes_of_forall₂ habi]
  simp only [bind, Except.bind, h.length_eq, if_true, checkArguments_of_legal habi h, pure,
    Except.pure]

theorem checkResults_of_forall₂ {types : List Ty} {values : List Value}
    (h : List.Forall₂ (fun t v => t.check v = .ok ()) types values) (index : Nat) :
    checkResults index types values = .ok () := by
  induction h generalizing index with
  | nil =>
    rw [checkResults]
    simp
  | cons hhead _ ih => rw [checkResults, hhead]; exact ih _

/-! ## The round trip -/

theorem check_encodeAll {types : List AbiType} {values : List Value}
    (h : List.Forall₂ AbiType.Fits types values)
    (hlen : (Value.encodeAll values).length ≤ Size.limit) :
    check types (Value.encodeAll values) = .ok () := by
  have haccept := h.imp fun _ _ hv => (⟨hv.suits, accepts_of_suits hv.suits⟩ : _ ∧ _)
  have hbacked := forall_of_forall₂ (h.imp fun _ _ hv => hv.backed)
  exact (checkValue_tuple haccept 0 hlen (List.prefix_refl _)).2
    ⟨Value.allBacked_of_forall _ hbacked, AbiType.allMeasure_of_fits h⟩

theorem read_encodeAll {types : List AbiType} {values : List Value}
    (h : List.Forall₂ AbiType.Fits types values)
    (hlen : (Value.encodeAll values).length ≤ Size.limit)
    (hdepth : Value.nestings values ≤ depthLimit) :
    read types (Value.encodeAll values) = .ok values := by
  cases h with
  | nil => rfl
  | @cons t v ts vs hhead htail =>
    have hfit : List.Forall₂ AbiType.Fits (t :: ts) (v :: vs) := .cons hhead htail
    have hread := hfit.imp fun _ _ hv => readable_of_fits hv
    rw [read, AbiType.allEmpty, hhead.isEmpty_eq, Bool.false_and]
    rw [readMembers_of_assemble hfit hread 0 hlen (by omega) (List.prefix_refl _)]
    rfl

theorem fits_of_legal {types : List Ty} {abi : List AbiType} {values : List Value}
    (habi : List.Forall₂ (fun t a => t.abiType? = some a) types abi)
    (hsized : ∀ t ∈ types, t.wellSized = true) (hsolid : ∀ t ∈ types, t.solid = true)
    (hlegal : List.Forall₂ Ty.Legal types values)
    (hmeasures : AbiType.allMeasure abi values = true) : List.Forall₂ AbiType.Fits abi values := by
  have hfit : List.Forall₂ (fun a v => a.measures v = true → a.Fits v) abi values :=
    forall₂_of_common habi hlegal fun t ht a v ha hv => hv.fits (hsized t ht) (hsolid t ht) ha
  exact forall₂_of_zip hfit.length_eq fun a v hmem =>
    (List.forall₂_iff_zip.1 hfit).2 hmem (AbiType.allMeasure_iff.1 hmeasures a v hmem)

theorem decode_encodeAll {types : List Ty} {abi : List AbiType} {values : List Value}
    (habi : List.Forall₂ (fun t a => t.abiType? = some a) types abi)
    (hsized : ∀ t ∈ types, t.wellSized = true) (hsolid : ∀ t ∈ types, t.solid = true)
    (hlegal : List.Forall₂ Ty.Legal types values)
    (hmeasures : AbiType.allMeasure abi values = true)
    (hlen : (Value.encodeAll values).length ≤ Size.limit)
    (hdepth : Value.nestings values ≤ depthLimit) :
    decode types (Value.encodeAll values) = .ok values := by
  have hfit := fits_of_legal habi hsized hsolid hlegal hmeasures
  have hresults := checkResults_of_forall₂ (hlegal.imp fun _ _ hv => hv.check_eq_ok) 0
  simp only [decode, decodeWith, abiTypes_of_forall₂ habi, check_encodeAll hfit hlen,
    read_encodeAll hfit hlen hdepth, hresults, bind, Except.bind, pure, Except.pure]

end Abi

end EvmInspect
