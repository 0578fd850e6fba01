import EvmInspect.Proofs.Basic
import EvmInspect.Proofs.Ty.Shape
/-!
# Legal values of declared types

What passes the check of a declared type, type by type, and the values that have its call type
besides, as a relation along the shape of both.
-/

namespace EvmInspect.Ty

variable {elem : Ty} {members : List Ty} {items : List Value} {v : Value} {bits size bound n : Nat}

/-! ## What passes a check -/

theorem checkEach_eq_ok_iff {ε : Type} {check : Value → Except ε Unit} :
    checkEach check items = .ok () ↔ ∀ v ∈ items, check v = .ok () := by
  refine ⟨checkEach_eq_ok, fun h => ?_⟩
  induction items with
  | nil => rfl
  | cons v vs ih =>
    rw [List.forall_mem_cons] at h
    rw [checkEach, h.1]
    exact ih h.2

theorem checkMembers_of_forall₂ (h : List.Forall₂ (fun t v => t.check v = .ok ()) members items) :
    checkMembers members items = .ok () := by
  induction h with
  | nil => rw [checkMembers]; simp
  | cons hhead _ ih =>
    rw [checkMembers, hhead]
    exact ih

theorem checkUnsigned_eq_ok {word : Word} :
    checkUnsigned word bits = .ok () ↔ word.fitsUnsigned bits = true := by
  rw [checkUnsigned, ite_error_eq_ok, and_iff_left rfl]

theorem checkSigned_eq_ok {word : Word} :
    checkSigned word bits = .ok () ↔ word.fitsSigned bits = true := by
  rw [checkSigned, ite_error_eq_ok, and_iff_left rfl]

theorem check_uint_eq_ok : (Ty.uint bits).check v = .ok () ↔
    ∃ word width, v = .uint word width ∧ word.fitsUnsigned bits = true := by
  cases v <;> simp [check, checkUnsigned_eq_ok]

theorem check_int_eq_ok : (Ty.int bits).check v = .ok () ↔
    ∃ word width, v = .int word width ∧ word.fitsSigned bits = true := by
  cases v <;> simp [check, checkSigned_eq_ok]

theorem check_fixedBytes_eq_ok : (Ty.fixedBytes size).check v = .ok () ↔
    ∃ word, v = .fixedBytes word size ∧ (word.toBytes.drop size).all (· == 0) = true := by
  cases v <;> simp [check]

theorem check_bytes_eq_ok :
    (Ty.bytes bound).check v = .ok () ↔ ∃ data, v = .bytes data ∧ data.length ≤ bound := by
  cases v <;> simp [check, checkLength]

theorem check_string_eq_ok :
    (Ty.string bound).check v = .ok () ↔ ∃ s, v = .string s ∧ s.utf8ByteSize ≤ bound := by
  cases v <;> simp [check, checkLength]

theorem check_array_eq_ok : (Ty.array elem n).check v = .ok () ↔
    ∃ items, v = .fixedArray items ∧ items.length = n ∧ ∀ v ∈ items, elem.check v = .ok () := by
  cases v <;> simp [check, ite_error_eq_ok, checkEach_eq_ok_iff]

theorem check_dynArray_eq_ok : (Ty.dynArray elem bound).check v = .ok () ↔
    ∃ items, v = .array items ∧ items.length ≤ bound ∧ ∀ v ∈ items, elem.check v = .ok () := by
  cases v <;> simp [check, ite_error_eq_ok, checkEach_eq_ok_iff]

/-! ## Legal values -/

/-- The value has the shape of the type, with integers in range and nothing longer than declared. -/
inductive Legal : Ty → Value → Prop
  | uint {bits : Nat} {word : Word} (hword : word.fitsUnsigned bits = true) :
      Legal (.uint bits) (.uint word bits)
  | int {bits : Nat} {word : Word} (hword : word.fitsSigned bits = true) :
      Legal (.int bits) (.int word bits)
  | bool (b : Bool) : Legal .bool (.bool b)
  | address (a : Address) : Legal .address (.address a)
  | fixedBytes {size : Nat} {word : Word} (hword : (word.toBytes.drop size).all (· == 0) = true) :
      Legal (.fixedBytes size) (.fixedBytes word size)
  | bytes {bound : Nat} {data : List UInt8} (hlen : data.length ≤ bound) :
      Legal (.bytes bound) (.bytes data)
  | string {bound : Nat} {s : String} (hlen : s.utf8ByteSize ≤ bound) :
      Legal (.string bound) (.string s)
  | array {elem : Ty} {items : List Value} (hitems : ∀ v ∈ items, Legal elem v) :
      Legal (.array elem items.length) (.fixedArray items)
  | dynArray {elem : Ty} {bound : Nat} {items : List Value} (hlen : items.length ≤ bound)
      (hitems : ∀ v ∈ items, Legal elem v) : Legal (.dynArray elem bound) (.array items)
  | tuple {members : List Ty} {items : List Value} (hlen : members.length = items.length)
      (hitems : ∀ t v, (t, v) ∈ members.zip items → Legal t v) :
      Legal (.tuple members) (.tuple items)
  | struct {name : String} {fields : List (String × Ty)} {items : List Value}
      (hlen : (fields.map Prod.snd).length = items.length)
      (hitems : ∀ t v, (t, v) ∈ (fields.map Prod.snd).zip items → Legal t v) :
      Legal (.struct name fields) (.tuple items)

/-- What has the call type of the declared type and passes its check is legal. -/
def Decided (t : Ty) : Prop :=
  ∀ a v, t.abiType? = some a → a.matchesValue v = true → t.check v = .ok () → t.Legal v

theorem legal_of_forall₂ {members : List Ty} {types : List AbiType} {items : List Value}
    (hdecided : ∀ t ∈ members, t.Decided)
    (htypes : List.Forall₂ (fun t a => t.abiType? = some a) members types)
    (hmatch : List.Forall₂ (fun a v => a.matchesValue v = true) types items)
    (hcheck : List.Forall₂ (fun t v => t.check v = .ok ()) members items) :
    List.Forall₂ Legal members items := by
  induction htypes generalizing items with
  | nil =>
    cases hmatch
    exact .nil
  | @cons t a ts as hhead _ ih =>
    obtain ⟨v, vs, hv, hvs, rfl⟩ := List.forall₂_cons_left_iff.1 hmatch
    obtain ⟨hcheckHead, hcheckTail⟩ := List.forall₂_cons.1 hcheck
    rw [List.forall_mem_cons] at hdecided
    exact .cons (hdecided.1 a v hhead hv hcheckHead) (ih hdecided.2 hvs hcheckTail)

theorem legal_of_checkMembers {members : List Ty} {types : List AbiType} {items : List Value}
    (hdecided : ∀ t ∈ members, t.Decided) (habi : abiTypes? members = some types)
    (hmatch : (types.length == items.length && AbiType.allMatch types items) = true)
    (hcheck : checkMembers members items = .ok ()) :
    members.length = items.length ∧ ∀ t v, (t, v) ∈ members.zip items → Legal t v := by
  rw [Bool.and_eq_true, beq_iff_eq] at hmatch
  have htypes := abiTypes?_eq_some habi
  have hlen : members.length = items.length := htypes.length_eq.trans hmatch.1
  have hlegal := legal_of_forall₂ hdecided htypes
    (AbiType.allMatch_eq_true hmatch.1 hmatch.2) (checkMembers_eq_ok hlen hcheck)
  exact ⟨hlen, fun t v hmem => (List.forall₂_iff_zip.1 hlegal).2 hmem⟩

theorem decided (t : Ty) : t.Decided := by
  induction t using memberInduction with
  | uint bits =>
    intro a v habi hmatch hcheck
    simp only [abiType?, Option.some.injEq] at habi
    subst habi
    obtain ⟨word, width, rfl, hword⟩ := check_uint_eq_ok.1 hcheck
    obtain rfl : width = bits := by simpa [AbiType.matchesValue] using hmatch
    exact .uint hword
  | int bits =>
    intro a v habi hmatch hcheck
    simp only [abiType?, Option.some.injEq] at habi
    subst habi
    obtain ⟨word, width, rfl, hword⟩ := check_int_eq_ok.1 hcheck
    obtain rfl : width = bits := by simpa [AbiType.matchesValue] using hmatch
    exact .int hword
  | bool | address =>
    intro a v habi hmatch _
    simp only [abiType?, Option.some.injEq] at habi
    subst habi
    cases v <;> simp only [AbiType.matchesValue, Bool.false_eq_true] at hmatch
    constructor
  | fixedBytes size =>
    intro a v _ _ hcheck
    obtain ⟨word, rfl, hword⟩ := check_fixedBytes_eq_ok.1 hcheck
    exact .fixedBytes hword
  | bytes bound =>
    intro a v _ _ hcheck
    obtain ⟨data, rfl, hlen⟩ := check_bytes_eq_ok.1 hcheck
    exact .bytes hlen
  | string bound =>
    intro a v _ _ hcheck
    obtain ⟨s, rfl, hlen⟩ := check_string_eq_ok.1 hcheck
    exact .string hlen
  | array elem n ih =>
    intro a v habi hmatch hcheck
    simp only [abiType?, Option.map_eq_some_iff] at habi
    obtain ⟨e, he, rfl⟩ := habi
    obtain ⟨items, rfl, rfl, hitems⟩ := check_array_eq_ok.1 hcheck
    rw [AbiType.matchesValue, Bool.and_eq_true, List.all_eq_true] at hmatch
    exact .array fun v hv => ih e v he (hmatch.2 v hv) (hitems v hv)
  | dynArray elem bound ih =>
    intro a v habi hmatch hcheck
    simp only [abiType?, Option.map_eq_some_iff] at habi
    obtain ⟨e, he, rfl⟩ := habi
    obtain ⟨items, rfl, hlen, hitems⟩ := check_dynArray_eq_ok.1 hcheck
    rw [AbiType.matchesValue, List.all_eq_true] at hmatch
    exact .dynArray hlen fun v hv => ih e v he (hmatch v hv) (hitems v hv)
  | tuple members ih =>
    intro a v habi hmatch hcheck
    simp only [abiType?, Option.map_eq_some_iff] at habi
    obtain ⟨types, htypes, rfl⟩ := habi
    obtain ⟨items, rfl, -, hitems⟩ := check_tuple_eq_ok.1 hcheck
    rw [AbiType.matchesValue] at hmatch
    obtain ⟨hlen, hitems⟩ := legal_of_checkMembers ih htypes hmatch hitems
    exact .tuple hlen hitems
  | struct name fields ih =>
    intro a v habi hmatch hcheck
    simp only [abiType?, Option.map_eq_some_iff] at habi
    obtain ⟨types, htypes, rfl⟩ := habi
    rw [fieldAbiTypes?_eq] at htypes
    obtain ⟨items, rfl, -, hitems⟩ := check_struct_eq_ok.1 hcheck
    rw [AbiType.matchesValue] at hmatch
    obtain ⟨hlen, hitems⟩ := legal_of_checkMembers ih htypes hmatch hitems
    exact .struct hlen hitems
  | mapping =>
    intro a v habi
    simp [abiType?] at habi

/-! ## Legal values pass -/

theorem Legal.check_eq_ok {t : Ty} {v : Value} (h : t.Legal v) : t.check v = .ok () := by
  induction h with
  | uint hword => exact check_uint_eq_ok.2 ⟨_, _, rfl, hword⟩
  | int hword => exact check_int_eq_ok.2 ⟨_, _, rfl, hword⟩
  | bool | address => rw [check]
  | fixedBytes hword => exact check_fixedBytes_eq_ok.2 ⟨_, rfl, hword⟩
  | bytes hlen => exact check_bytes_eq_ok.2 ⟨_, rfl, hlen⟩
  | string hlen => exact check_string_eq_ok.2 ⟨_, rfl, hlen⟩
  | array _ ih => exact check_array_eq_ok.2 ⟨_, rfl, rfl, ih⟩
  | dynArray hlen _ ih => exact check_dynArray_eq_ok.2 ⟨_, rfl, hlen, ih⟩
  | tuple hlen _ ih =>
    exact check_tuple_eq_ok.2 ⟨_, rfl, hlen, checkMembers_of_forall₂ (forall₂_of_zip hlen ih)⟩
  | struct hlen _ ih =>
    exact check_struct_eq_ok.2 ⟨_, rfl, hlen, checkMembers_of_forall₂ (forall₂_of_zip hlen ih)⟩

theorem allMatch_of_forall₂ {types : List AbiType} {items : List Value}
    (h : List.Forall₂ (fun a v => a.matchesValue v = true) types items) :
    (types.length == items.length && AbiType.allMatch types items) = true := by
  rw [h.length_eq, beq_self_eq_true, Bool.true_and]
  induction h with
  | nil => rw [AbiType.allMatch]; simp
  | cons hhead _ ih => rw [AbiType.allMatch, hhead, ih, Bool.and_self]

theorem matches_of_zip {members : List Ty} {types : List AbiType} {items : List Value}
    (habi : abiTypes? members = some types) (hlen : members.length = items.length)
    (h : ∀ t v, (t, v) ∈ members.zip items → ∀ a, t.abiType? = some a → a.matchesValue v = true) :
    (types.length == items.length && AbiType.allMatch types items) = true :=
  allMatch_of_forall₂ <| forall₂_of_common (abiTypes?_eq_some habi) (forall₂_of_zip hlen h)
    fun _ _ a _ ha hv => hv a ha

theorem Legal.matchesValue {t : Ty} {a : AbiType} {v : Value} (h : t.Legal v)
    (habi : t.abiType? = some a) : a.matchesValue v = true := by
  induction h generalizing a with
  | uint | int | bool | address | fixedBytes | bytes | string =>
    simp only [abiType?, Option.some.injEq] at habi
    subst habi
    simp [AbiType.matchesValue]
  | array _ ih =>
    simp only [abiType?, Option.map_eq_some_iff] at habi
    obtain ⟨e, he, rfl⟩ := habi
    rw [AbiType.matchesValue, beq_self_eq_true, Bool.true_and, List.all_eq_true]
    exact fun v hv => ih v hv he
  | dynArray _ _ ih =>
    simp only [abiType?, Option.map_eq_some_iff] at habi
    obtain ⟨e, he, rfl⟩ := habi
    rw [AbiType.matchesValue, List.all_eq_true]
    exact fun v hv => ih v hv he
  | tuple hlen _ ih =>
    simp only [abiType?, Option.map_eq_some_iff] at habi
    obtain ⟨types, htypes, rfl⟩ := habi
    rw [AbiType.matchesValue]
    exact matches_of_zip htypes hlen fun t v hmem a ha => ih t v hmem ha
  | struct hlen _ ih =>
    simp only [abiType?, Option.map_eq_some_iff] at habi
    obtain ⟨types, htypes, rfl⟩ := habi
    rw [fieldAbiTypes?_eq] at htypes
    rw [AbiType.matchesValue]
    exact matches_of_zip htypes hlen fun t v hmem a ha => ih t v hmem ha

end EvmInspect.Ty
