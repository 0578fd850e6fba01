import EvmInspect.Proofs.Abi.Accepted
import EvmInspect.Proofs.Abi.RoundTrip
/-!
# The strict check is exactly strong enough

What passes the strict check is read, unless it nests deeper than the reader follows, and all that
can be wrong with the values that are read is that one of them is longer than declared.
-/

namespace EvmInspect

namespace Ty

theorem checkEach_eq (t : Ty) (items : List Value) :
    checkEach t.check items = checkMembers (List.replicate items.length t) items := by
  induction items with
  | nil => rw [checkEach, checkMembers]; simp
  | cons v vs ih =>
    rw [checkEach, List.length_cons, List.replicate_succ, checkMembers, ih]
    cases t.check v <;> rfl

end Ty

namespace Abi

variable {t : Ty} {a : AbiType} {members : List Ty} {types : List AbiType}
  {region shorter : List UInt8} {base n : Nat}

/-! ## Words -/

theorem of_wordCheck {condition : List UInt8 → Bool} {fault : Fault} {word : List UInt8}
    (hlen : word.length = 32)
    (h : (wordAt word 0 base >>= fun w => require (condition w) fault) = .ok ()) :
    condition word = true := by
  obtain ⟨w, hw, h⟩ := ok_of_bind h
  obtain ⟨-, rfl⟩ := wordAt_eq_ok.1 hw
  rw [List.drop_zero, List.take_of_length_le (Nat.le_of_eq hlen)] at h
  exact require_eq_ok.1 h

theorem reads_word (value : List UInt8 → Value) (ht : t.HasCallType a) (hword : t.isWord = true)
    (hread : ∀ region pos depth, readValue a region pos depth =
      (readWord region pos).map fun word => (value word, pos + 32))
    (hlegal : ∀ word base, word.length = 32 → checkValue a word base = .ok () →
      a.Fits (value word) ∧ t.check (value word) = .ok ()) : Reads t a := by
  have hstatic : a.isDynamic = false ∧ a.staticSize = 32 := by
    cases ht <;> simp_all [Ty.isWord, AbiType.isDynamic, AbiType.staticSize, Size.wordBytes]
  refine ⟨ht, fun shorter region base head pos depth hstarts hcheck => ?_⟩
  have hvalue := of_checkPlaced_static hstatic.1 hcheck
  obtain ⟨-, hle⟩ := ht.covered.le_of_checkPlaced hcheck
  have hhead : a.headSize = 32 := by simp [AbiType.headSize, hstatic]
  rw [hhead] at hle hvalue ⊢
  have hlonger := hstarts.length_le
  rw [← take_of_starts hstarts hle] at hvalue
  obtain ⟨hfits, hok⟩ := hlegal _ _ (length_word.2 (by omega)) hvalue
  right
  refine ⟨value ((region.drop pos).take 32), ?_, hfits, .of_ok (kept_of_isWord hword) hok⟩
  rw [hread, readWord_eq_ok (by omega)]
  rfl

/-! ## Lengths -/

theorem kept_of_bound {bound : Nat} (hbound : t.bound? = some bound)
    (hcontents : (t.contents region).1 = []) : Kept t region ↔ numberIn region 0 ≤ bound := by
  rw [kept_iff, hcontents, hbound]
  constructor
  · rintro ⟨hown, -⟩
    exact hown bound rfl
  · intro hle
    refine ⟨fun b hb => ?_, keptMembers_nil⟩
    rw [← Option.some.inj hb]
    exact hle

theorem readData_of_numberAt (hstarts : shorter <+: region)
    (hnumber : numberAt shorter 0 base .length = .ok n) (hlen : 32 + n ≤ shorter.length) :
    ∃ data, readData region = .ok data ∧ data = (shorter.drop 32).take n ∧
      data.length = numberIn region 0 := by
  obtain ⟨hword, hle, rfl⟩ := numberAt_eq_ok.1 hnumber
  have hlonger := hstarts.length_le
  have hsame := numberIn_of_starts hstarts hword
  have hdata : ((shorter.drop 32).take (numberIn shorter 0)).length = numberIn shorter 0 := by
    rw [List.length_take, List.length_drop]
    omega
  refine ⟨_, ?_, rfl, by rw [hsame, hdata]⟩
  unfold readData
  rw [readNumber_eq_ok (by omega) (by omega), hsame]
  simp only [bind, Except.bind, take_of_starts hstarts hlen, hdata, if_true, pure, Except.pure]

theorem reads_bytes (bound : Nat) : Reads (.bytes bound) .bytes := by
  refine ⟨.bytes bound, fun shorter region base head pos depth hstarts hcheck => ?_⟩
  obtain ⟨body, start, hbody, hvalue, -, henter⟩ :=
    enter_of_checkPlaced (.bytes bound) hstarts hcheck depth
  rw [checkValue] at hvalue
  obtain ⟨n, hnumber, hvalue⟩ := ok_of_bind hvalue
  rw [require_eq_ok, decide_eq_true_eq] at hvalue
  obtain ⟨data, hdata, -, hlen⟩ := readData_of_numberAt hbody hnumber hvalue
  rw [enter, AbiType.isDynamic, if_pos rfl] at henter
  rw [readValue]
  rcases henter with hdeep | henter
  · exact .inl (by rw [hdeep]; rfl)
  · refine .inr ⟨.bytes data, ?_, .bytes data, ?_⟩
    · simp only [henter, hdata, bind, Except.bind, pure, Except.pure]
      rfl
    · rw [kept_of_bound rfl rfl, ← hlen]
      exact .checkLength _ _ _

theorem reads_string (bound : Nat) : Reads (.string bound) .string := by
  refine ⟨.string bound, fun shorter region base head pos depth hstarts hcheck => ?_⟩
  obtain ⟨body, start, hbody, hvalue, -, henter⟩ :=
    enter_of_checkPlaced (.string bound) hstarts hcheck depth
  rw [checkValue] at hvalue
  obtain ⟨n, hnumber, hvalue⟩ := ok_of_bind hvalue
  obtain ⟨_, hinside, hvalue⟩ := ok_of_bind hvalue
  rw [require_eq_ok, decide_eq_true_eq] at hinside
  rw [require_eq_ok] at hvalue
  obtain ⟨data, hdata, rfl, hlen⟩ := readData_of_numberAt hbody hnumber hinside
  rw [enter, AbiType.isDynamic, if_pos rfl] at henter
  rw [readValue]
  rcases henter with hdeep | henter
  · exact .inl (by rw [hdeep]; rfl)
  · refine .inr ⟨.string (Text.ofUtf8Replacing ((body.drop 32).take n)), ?_, .string _, ?_⟩
    · simp only [henter, hdata, bind, Except.bind, pure, Except.pure]
      rfl
    · rw [kept_of_bound rfl rfl, ← hlen, ← Text.utf8ByteSize_ofUtf8Replacing hvalue]
      exact .checkLength _ _ _

/-! ## Arrays -/

theorem judged_dynArray {elem : Ty} {bound : Nat} {items : List Value}
    (hlen : items.length = numberIn region 0)
    (h : Judged (KeptMembers (List.replicate (numberIn region 0) elem) (region.drop 32) 0)
      (Ty.checkMembers (List.replicate (numberIn region 0) elem) items)) :
    Judged (Kept (.dynArray elem bound) region)
      ((Ty.dynArray elem bound).check (.array items)) := by
  rw [kept_iff, Ty.check, Ty.checkEach_eq, hlen]
  simp only [Ty.bound?, Ty.contents, Option.some.injEq, forall_eq']
  by_cases hle : numberIn region 0 ≤ bound
  · simpa [hle] using h
  · exact .inr ⟨fun hkept => hle hkept.1, _, _, if_neg hle⟩

theorem reads_dynArray {elem : Ty} (bound : Nat) (helem : Reads elem a) :
    Reads (.dynArray elem bound) (.array a) := by
  have htype := Ty.HasCallType.dynArray bound helem.callType
  refine ⟨htype, fun shorter region base head pos depth hstarts hcheck => ?_⟩
  obtain ⟨body, start, hbody, hvalue, -, henter⟩ := enter_of_checkPlaced htype hstarts hcheck depth
  obtain ⟨hmeasured, hword, hle, start', head', hmembers⟩ := of_checkValue_array hvalue
  have hlonger := hbody.length_le
  have hsame : numberIn ((Ty.dynArray elem bound).placed region pos) 0 = numberIn body 0 :=
    numberIn_of_starts hbody (by omega)
  rw [enter, AbiType.isDynamic, if_pos rfl] at henter
  generalize (Ty.dynArray elem bound).placed region pos = inside at *
  have hcount := readNumber_eq_ok (by omega : 0 + 32 ≤ inside.length) (by omega)
  rw [readValue]
  rcases henter with hdeep | henter
  · exact .inl (by rw [hdeep]; rfl)
  · simp only [henter, hcount, helem.callType.isEmpty_eq, bind, Except.bind, pure, Except.pure,
      Bool.false_eq_true, or_false]
    by_cases hzero : numberIn inside 0 = 0
    · -- no region is entered for no elements
      have hnone : Ty.checkMembers (List.replicate 0 elem) [] = .ok () := by
        rw [List.replicate_zero, Ty.checkMembers]
        simp
      refine .inr ⟨.array [], by rw [if_pos hzero]; rfl,
        .array helem.callType.isEmpty_eq hmeasured (by simp), judged_dynArray hzero.symm ?_⟩
      rw [hzero]
      exact .of_ok keptMembers_nil hnone
    · rw [if_neg hzero]
      rcases inner_cases (depth + 1) (by omega : 32 ≤ inside.length) with hdeep | hinner
      · exact .inl (by rw [hdeep])
      · rw [← hsame] at hmembers
        have hread := readMembers_of_checkMembers (forall₂_copies helem (numberIn inside 0))
          (depth + 1 + 1) (drop_starts hbody 32) hmembers
        rw [readMembers_replicate] at hread
        rw [hinner]
        rcases hread with hdeep | ⟨items, hitems, hfits, hjudged⟩
        · exact .inl (by simp only [hdeep])
        · have hlen : items.length = numberIn inside 0 := by
            rw [← hfits.length_eq, List.length_replicate]
          exact .inr ⟨.array items, by simp only [hitems]; rfl,
            .array helem.callType.isEmpty_eq hmeasured (forall_of_copies hfits),
            judged_dynArray hlen hjudged⟩

/-! ## All types -/

theorem kept_of_contents {members : List Ty} (hbound : t.bound? = none)
    (hcontents : t.contents region = (members, region)) :
    Kept t region ↔ KeptMembers members region 0 := by
  rw [kept_iff, hbound, hcontents]
  simp

/-- A type whose values are sequences of members is read as the tuple of these. -/
theorem reads_sequence (value : List Value → Value) (h : List.Forall₂ Reads members types)
    (ht : t.HasCallType a) (hsize : a.isDynamic = false → a.staticSize ≤ extent types)
    (hsame : ∀ region base, checkValue a region base = checkValue (.tuple types) region base)
    (hread : ∀ region pos depth, readValue a region pos depth =
      (readSequence a.isDynamic (readMembers types · 0 ·) region pos depth).map fun result =>
        (value result.1, result.2))
    (hbound : t.bound? = none) (hcontents : ∀ region, t.contents region = (members, region))
    (hfits : ∀ items, (∀ u ∈ types, u.Measured) → List.Forall₂ AbiType.Fits types items →
      a.Fits (value items))
    (hlegal : ∀ items, items.length = members.length →
      t.check (value items) = Ty.checkMembers members items) : Reads t a := by
  refine ⟨ht, fun shorter region base head pos depth hstarts hcheck => ?_⟩
  rw [hread, kept_of_contents hbound (hcontents _)]
  rcases readSequence_of_checkPlaced h ht hsize hsame depth hstarts hcheck with
    hdeep | ⟨items, hitems, hmeasured, hall, hjudged⟩
  · exact .inl (by rw [hdeep]; rfl)
  · refine .inr ⟨value items, by rw [hitems]; rfl, hfits items hmeasured hall, ?_⟩
    rw [hlegal items (hall.length_eq.symm.trans h.length_eq.symm)]
    exact hjudged

theorem reads_fixedArray {elem : Ty} (hn : n ≠ 0) (helem : Reads elem a) :
    Reads (.array elem n) (.fixedArray a n) := by
  have htype := Ty.HasCallType.array hn helem.callType
  have hindirect : (n != 0 && a.isIndirect) = (AbiType.fixedArray a n).isDynamic :=
    htype.isIndirect_eq
  apply reads_sequence .fixedArray (forall₂_copies helem n) htype staticSize_fixedArray_le
    (checkValue_fixedArray a n) _ rfl fun _ => rfl
  · intro items hmeasured hall
    have hlen : items.length = n := by rw [← hall.length_eq, List.length_replicate]
    have hne : items ≠ [] := by
      rintro rfl
      exact hn hlen.symm
    exact hlen ▸ .fixedArray hne (hmeasured a (List.mem_replicate.2 ⟨hn, rfl⟩))
      (forall_of_copies hall)
  · intro items hlen
    rw [List.length_replicate] at hlen
    rw [Ty.check, if_pos hlen, Ty.checkEach_eq, hlen]
  · intro region pos depth
    rw [readValue, hindirect]
    simp only [readMembers_replicate]
    cases readSequence (AbiType.fixedArray a n).isDynamic _ region pos depth <;> rfl

theorem reads_tuple (h : List.Forall₂ Reads members types) (hne : types ≠ [])
    (ht : t.HasCallType (.tuple types)) (hbound : t.bound? = none)
    (hcontents : ∀ region, t.contents region = (members, region))
    (hlegal : ∀ items, items.length = members.length →
      t.check (.tuple items) = Ty.checkMembers members items) : Reads t (.tuple types) := by
  have hindirect : AbiType.anyIndirect types = (AbiType.tuple types).isDynamic := ht.isIndirect_eq
  have hsize (hstatic : (AbiType.tuple types).isDynamic = false) :
      (AbiType.tuple types).staticSize ≤ extent types :=
    Nat.le_of_eq (AbiType.sum_headSize_of_static hstatic).symm
  apply reads_sequence .tuple h ht hsize (fun _ _ => rfl) _ hbound hcontents _ hlegal
  · intro region pos depth
    rw [readValue, hindirect]
    cases readSequence (AbiType.tuple types).isDynamic _ region pos depth <;> rfl
  · intro items _ hall
    exact .tuple hne hall.length_eq fun a v hmem => (List.forall₂_iff_zip.1 hall).2 hmem

theorem reads (h : t.HasCallType a) : Reads t a := by
  induction h with
  | uint bits =>
    apply reads_word (fun word => .uint (Word.ofBytes word) bits) (.uint bits) rfl
    · intro region pos depth
      rw [readValue]
      cases readWord region pos <;> rfl
    · intro word base hlen hcheck
      rw [checkValue] at hcheck
      have hbits := of_wordCheck hlen hcheck
      exact ⟨.uint hbits, by rw [Ty.check, Ty.checkUnsigned, if_pos hbits]⟩
  | int bits =>
    apply reads_word (fun word => .int (Word.ofBytes word) bits) (.int bits) rfl
    · intro region pos depth
      rw [readValue]
      cases readWord region pos <;> rfl
    · intro word base hlen hcheck
      rw [checkValue] at hcheck
      have hsign := of_wordCheck hlen hcheck
      rw [← Word.toBytes_ofBytes hlen] at hsign
      refine ⟨.int hsign, ?_⟩
      rw [Ty.check, Ty.checkSigned, if_pos (fitsSigned_of_signExtended hsign)]
  | bool =>
    apply reads_word (fun word => .bool (natOfBytes word != 0)) .bool rfl
    · intro region pos depth
      rw [readValue]
      cases readWord region pos <;> rfl
    · intro word base hlen hcheck
      exact ⟨.bool _, by rw [Ty.check]⟩
  | address =>
    apply reads_word (fun word => .address (Address.ofBytes (word.drop 12))) .address rfl
    · intro region pos depth
      rw [readValue]
      cases readWord region pos <;> rfl
    · intro word base hlen hcheck
      exact ⟨.address _, by rw [Ty.check]⟩
  | fixedBytes size =>
    apply reads_word (fun word => .fixedBytes (Word.ofBytes word) size) (.fixedBytes size) rfl
    · intro region pos depth
      rw [readValue]
      cases readWord region pos <;> rfl
    · intro word base hlen hcheck
      rw [checkValue] at hcheck
      have hzero := of_wordCheck hlen hcheck
      rw [← Word.toBytes_ofBytes hlen, allZero] at hzero
      exact ⟨.fixedBytes hzero, by rw [Ty.check, if_pos ⟨rfl, hzero⟩]⟩
  | bytes bound => exact reads_bytes bound
  | string bound => exact reads_string bound
  | dynArray bound _ ih => exact reads_dynArray bound ih
  | array hn _ ih => exact reads_fixedArray hn ih
  | tuple hne hlen hmembers ih =>
    apply reads_tuple (forall₂_of_zip hlen ih) hne (.tuple hne hlen hmembers) rfl fun _ => rfl
    intro items hcount
    rw [Ty.check, if_pos hcount.symm]
  | struct name hne hlen hmembers ih =>
    apply reads_tuple (forall₂_of_zip hlen ih) hne (.struct name hne hlen hmembers) rfl fun _ => rfl
    intro items hcount
    rw [List.length_map] at hcount
    rw [Ty.check, if_pos hcount.symm, Ty.checkFields_eq]

/-! ## The parameters of a call -/

/-- Results are checked as members are; a complaint says which of them it is about. -/
theorem checkResults_of_checkMembers (types : List Ty) (values : List Value) (index : Nat) :
    (Ty.checkMembers types values = .ok () → checkResults index types values = .ok ()) ∧
      ∀ e, Ty.checkMembers types values = .error e →
        ∃ place, checkResults index types values = .error (.illegal place e) := by
  induction types generalizing values index with
  | nil =>
    rw [Ty.checkMembers, checkResults]
    all_goals simp
  | cons t ts ih =>
    cases values with
    | nil =>
      rw [Ty.checkMembers, checkResults]
      all_goals simp
    | cons v vs =>
      rw [Ty.checkMembers, checkResults]
      cases t.check v with
      | ok => exact ih vs (index + 1)
      | error e => simp

theorem abiTypes_of_callTypes {abi : List AbiType}
    (h : List.Forall₂ Ty.HasCallType members abi) : abiTypes members = .ok abi :=
  abiTypes_of_forall₂ (h.imp fun _ _ ha => ha.abiType?_eq)

theorem allEmpty_eq {abi : List AbiType} (h : List.Forall₂ Ty.HasCallType members abi)
    (hne : members ≠ []) : AbiType.allEmpty abi = false := by
  cases h with
  | nil => exact absurd rfl hne
  | cons hhead _ => rw [AbiType.allEmpty, hhead.isEmpty_eq, Bool.false_and]

theorem read_of_check {abi : List AbiType} {data : List UInt8}
    (h : List.Forall₂ Ty.HasCallType members abi) (hcheck : check abi data = .ok ())
    (hdepth : read abi data ≠ .error .tooDeep) :
    ∃ values, read abi data = .ok values ∧
      Judged (Kept (.tuple members) data) (Ty.checkMembers members values) := by
  obtain ⟨head, hmembers⟩ := of_checkValue_tuple hcheck
  have hreads : List.Forall₂ Reads members abi := h.imp fun _ _ ha => reads ha
  have hkept : Kept (.tuple members) data ↔ KeptMembers members data 0 :=
    kept_of_contents rfl rfl
  rw [hkept]
  rcases readMembers_of_checkMembers hreads 0 (List.prefix_refl data) hmembers with
    hdeep | ⟨values, hvalues, -, hjudged⟩
  · -- only parameters that are there can nest
    have hne : members ≠ [] := by
      rintro rfl
      cases h
      rw [readMembers] at hdeep
      simp at hdeep
    rw [read, allEmpty_eq h hne, hdeep] at hdepth
    exact absurd rfl hdepth
  · refine ⟨values, ?_, hjudged⟩
    rw [read, hvalues]
    by_cases hne : members = []
    · subst hne
      cases h
      rw [readMembers] at hvalues
      cases hvalues
      rfl
    · rw [allEmpty_eq h hne]
      rfl

/-- Unless accepted data nests too deep, it is decoded exactly if the strict check accepts it and no
length in it is larger than declared.  Once it is accepted, it is read, and nothing but such a
length makes the values illegal. -/
theorem decode_eq_ok_iff {types : List Ty} (data : List UInt8)
    (hplain : ∀ t ∈ types, t.mappingFree = true) (hsolid : ∀ t ∈ types, t.solid = true) :
    ∃ abi, abiTypes types = .ok abi ∧
      ((check abi data = .ok () → read abi data ≠ .error .tooDeep) →
        ((∃ values, decode types data = .ok values) ↔
          check abi data = .ok () ∧ Kept (.tuple types) data) ∧
        (check abi data = .ok () →
          ∃ values, read abi data = .ok values ∧
            ∀ reason, checkResults 0 types values = .error reason →
              ∃ place length t, reason = .illegal place (.tooLong length t))) := by
  obtain ⟨abi, htypes⟩ := exists_forall₂ fun t ht =>
    Ty.exists_hasCallType (hplain t ht) (hsolid t ht)
  have habi := abiTypes_of_callTypes htypes
  refine ⟨abi, habi, fun hdepth => ?_⟩
  cases hcheck : check abi data with
  | error fault =>
    refine ⟨?_, by simp⟩
    simp [decode, decodeWith, habi, hcheck, bind, Except.bind, throw, throwThe,
      MonadExceptOf.throw]
  | ok =>
    obtain ⟨values, hvalues, hjudged⟩ := read_of_check htypes hcheck (hdepth hcheck)
    obtain ⟨hok, herror⟩ := checkResults_of_checkMembers types values 0
    simp only [decode, decodeWith, habi, hcheck, hvalues, bind, Except.bind, true_and,
      forall_const, Except.ok.injEq, exists_eq_left']
    rcases hjudged with ⟨hkept, hresult⟩ | ⟨hkept, length, t, hresult⟩
    · simp [hok hresult, hkept, pure, Except.pure]
    · obtain ⟨place, hplace⟩ := herror _ hresult
      simp [hplace, hkept, throw, throwThe, MonadExceptOf.throw]

def shortStrings : Ty := .dynArray (.bytes 2) 3

/-- A byte string in it keeps its bound with two bytes and not with three. -/
theorem kept_shortStrings :
    Kept (.tuple [shortStrings]) (Value.encodeAll [.array [.bytes [1, 2]]]) ∧
      ¬Kept (.tuple [shortStrings]) (Value.encodeAll [.array [.bytes [1, 2, 3]]]) := by
  have hiff (data : List UInt8)
      (hdepth : check [.array .bytes] data = .ok () →
        read [.array .bytes] data ≠ .error .tooDeep) :
      (∃ values, decode [shortStrings] data = .ok values) ↔
        check [.array .bytes] data = .ok () ∧ Kept (.tuple [shortStrings]) data := by
    obtain ⟨abi, habi, h⟩ := @decode_eq_ok_iff [shortStrings] data (by decide) (by decide)
    cases habi
    exact (h hdepth).1
  constructor
  · have hdecode : decode [shortStrings] (Value.encodeAll [.array [.bytes [1, 2]]]) =
        .ok [.array [.bytes [1, 2]]] := by decide +kernel
    exact ((hiff _ (by decide +kernel)).1 ⟨_, hdecode⟩).2
  · intro hkept
    have hcheck : check [.array .bytes] (Value.encodeAll [.array [.bytes [1, 2, 3]]]) = .ok () := by
      decide +kernel
    have hdecode : decode [shortStrings] (Value.encodeAll [.array [.bytes [1, 2, 3]]]) =
        .error (.decoding "(bytes[])" (.illegal 0 (.tooLong 3 (.bytes 2)))) := by decide +kernel
    obtain ⟨values, hvalues⟩ := (hiff _ (by decide +kernel)).2 ⟨hcheck, hkept⟩
    rw [hdecode] at hvalues
    simp at hvalues

end Abi

end EvmInspect
