import EvmInspect.Proofs.Abi.RoundTrip
import EvmInspect.Proofs.Ty.Written
/-!
# Encodings with nothing in them

Arrays of length 0 and tuples of nothing take no bytes, and what type text can say includes both.
The encoder sees from a value whether it stands behind an offset, and the strict check from the
type; the check wants a byte for every element of an array, which the encoder need not write, and
asks for the size of elements also where there are none.  The main statement tells which encodings
the check lets pass: where no type promises an offset that the value does without, exactly those in
which every length is backed by the bytes behind it and the elements of every array are measured.
-/

namespace EvmInspect

namespace Ty

mutual

/-- In the value no array of length 0 has dynamic elements.  Such an array is static for the encoder
and dynamic for the check. -/
def anchored : Ty → Value → Bool
  | .array elem n, .fixedArray items =>
    (n != 0 || !elem.isDynamic) && items.all fun v => elem.anchored v
  | .dynArray elem _, .array items => items.all fun v => elem.anchored v
  | .tuple members, .tuple items => membersAnchored members items
  | .struct _ fields, .tuple items => fieldsAnchored fields items
  | _, _ => true

def membersAnchored : List Ty → List Value → Bool
  | t :: ts, v :: vs => t.anchored v && membersAnchored ts vs
  | _, _ => true

def fieldsAnchored : List (String × Ty) → List Value → Bool
  | f :: fs, v :: vs => f.2.anchored v && fieldsAnchored fs vs
  | _, _ => true

end

theorem fieldsAnchored_eq (fields : List (String × Ty)) (items : List Value) :
    fieldsAnchored fields items = membersAnchored (fields.map Prod.snd) items := by
  induction fields generalizing items with
  | nil => rw [fieldsAnchored, List.map_nil, membersAnchored] <;> simp
  | cons f fs ih =>
    cases items with
    | nil => rw [fieldsAnchored, List.map_cons, membersAnchored] <;> simp
    | cons v vs => rw [fieldsAnchored, List.map_cons, membersAnchored, ih]

theorem anchored_of_mem_zip {members : List Ty} {items : List Value}
    (h : membersAnchored members items = true) :
    ∀ t v, (t, v) ∈ members.zip items → t.anchored v = true := by
  induction members generalizing items with
  | nil => simp
  | cons t ts ih =>
    cases items with
    | nil => simp
    | cons v vs =>
      rw [membersAnchored, Bool.and_eq_true] at h
      intro u w hmem
      rw [List.zip_cons_cons, List.mem_cons] at hmem
      rcases hmem with hhead | hmem
      · cases hhead
        exact h.1
      · exact ih h.2 u w hmem

theorem suits_tuple {members : List Ty} {types : List AbiType} {items : List Value}
    (habi : abiTypes? members = some types) (hlen : members.length = items.length)
    (hanchored : membersAnchored members items = true)
    (hsized : ∀ t ∈ members, t.wellSized = true) (hbounds : ∀ t ∈ members, t.addressable = true)
    (h : ∀ t v, (t, v) ∈ members.zip items → ∀ {a : AbiType}, t.anchored v = true →
      t.abiType? = some a → t.wellSized = true → t.addressable = true → a.Suits v) :
    AbiType.Suits (.tuple types) (.tuple items) := by
  have hmember : ∀ t v, (t, v) ∈ members.zip items → ∀ a, t.abiType? = some a → a.Suits v := by
    intro t v hmem a ha
    have ht := (List.of_mem_zip hmem).1
    exact h t v hmem (anchored_of_mem_zip hanchored t v hmem) ha (hsized t ht) (hbounds t ht)
  have hsuits : List.Forall₂ AbiType.Suits types items :=
    forall₂_of_common (abiTypes?_eq_some habi) (forall₂_of_zip hlen hmember)
      fun t _ a v ha hv => hv a ha
  exact .tuple hsuits.length_eq fun t v hmem => (List.forall₂_iff_zip.1 hsuits).2 hmem

theorem Legal.suits {t : Ty} {a : AbiType} {v : Value} (h : t.Legal v) (hw : t.Written)
    (hanchored : t.anchored v = true) (habi : t.abiType? = some a) : a.Suits v := by
  obtain ⟨hsized, hbounds⟩ := hw
  unfold wellSized at hsized
  unfold addressable at hbounds
  induction h generalizing a with
  | uint hword =>
    simp only [abiType?, Option.some.injEq] at habi
    exact habi ▸ .uint hword
  | int hword =>
    simp only [everywhere, hasWidth, decide_eq_true_eq] at hsized
    simp only [abiType?, Option.some.injEq] at habi
    refine habi ▸ .int ?_
    rw [signExtended_toBytes _ hsized.1 hsized.2.1 hsized.2.2, hword]
  | fixedBytes hword =>
    simp only [abiType?, Option.some.injEq] at habi
    exact habi ▸ .fixedBytes hword
  | bool | address | bytes | string =>
    simp only [abiType?, Option.some.injEq] at habi
    subst habi
    constructor
  | @array elem items _ ih =>
    simp only [everywhere, Bool.and_eq_true] at hsized hbounds
    simp only [anchored, Bool.and_eq_true, Bool.or_eq_true, List.all_eq_true] at hanchored
    simp only [abiType?, Option.map_eq_some_iff] at habi
    obtain ⟨e, he, rfl⟩ := habi
    refine .fixedArray (fun hnil => ?_) fun v hv =>
      ih v hv (hanchored.2 v hv) he hsized.2 hbounds.2
    simpa [hnil, isDynamic_eq he] using hanchored.1
  | @dynArray elem bound items hlen _ ih =>
    simp only [everywhere, hasBound, Bool.and_eq_true, decide_eq_true_eq] at hsized hbounds
    simp only [anchored, List.all_eq_true] at hanchored
    simp only [abiType?, Option.map_eq_some_iff] at habi
    obtain ⟨e, he, rfl⟩ := habi
    exact .array (fun _ => Nat.le_trans hlen hbounds.1) fun v hv =>
      ih v hv (hanchored v hv) he hsized.2 hbounds.2
  | tuple hlen _ ih =>
    rw [anchored] at hanchored
    simp only [abiType?, Option.map_eq_some_iff] at habi
    obtain ⟨types, htypes, rfl⟩ := habi
    exact suits_tuple htypes hlen hanchored (everywhere_tuple hsized).2
      (everywhere_tuple hbounds).2 ih
  | struct hlen _ ih =>
    rw [anchored, fieldsAnchored_eq] at hanchored
    simp only [abiType?, Option.map_eq_some_iff] at habi
    obtain ⟨types, htypes, rfl⟩ := habi
    rw [fieldAbiTypes?_eq] at htypes
    exact suits_tuple htypes hlen hanchored (everywhere_struct hsized).2
      (everywhere_struct hbounds).2 ih

end Ty

namespace Abi

/-- Where no array of length 0 has dynamic elements, the encoder and the strict check agree on which
arguments stand behind an offset, and the check accepts what the encoder writes exactly if no array
has more elements than there are bytes behind its length and the elements of every array are
measured. -/
theorem check_encode_eq_ok_iff {types : List Ty} {values : List Value} {data : List UInt8}
    (hwritten : ∀ t ∈ types, t.Written) (hanchored : Ty.membersAnchored types values = true)
    (h : encode types values = .ok data) (hlen : data.length ≤ Size.limit) :
    ∃ abi, abiTypes types = .ok abi ∧
      List.Forall₂ (fun a v => a.isDynamic = v.isDynamic) abi values ∧
      (check abi data = .ok () ↔
        Value.allBacked 0 values = true ∧ AbiType.allMeasure abi values = true) := by
  obtain ⟨abi, habi, hmatch, hlegal, rfl⟩ := encode_eq_ok h
  have htypes := abiTypes_eq_ok habi
  have hlegals := Ty.legal_of_forall₂ (fun t _ => t.decided) htypes hmatch hlegal
  have hzip : List.Forall₂ (fun t v => t.Legal v ∧ t.anchored v = true) types values :=
    forall₂_of_zip hlegals.length_eq fun t v hmem =>
      ⟨(List.forall₂_iff_zip.1 hlegals).2 hmem, Ty.anchored_of_mem_zip hanchored t v hmem⟩
  have hsuits : List.Forall₂ AbiType.Suits abi values :=
    forall₂_of_common htypes hzip fun t ht a v ha hv => hv.1.suits (hwritten t ht) hv.2 ha
  refine ⟨abi, habi, hsuits.imp fun _ _ hv => hv.isDynamic_eq, ?_⟩
  have htuple := checkValue_tuple (hsuits.imp fun _ _ hv => ⟨hv, accepts_of_suits hv⟩) 0 hlen
    (List.prefix_refl _)
  rwa [Value.encodeAll, Nat.sub_self] at htuple

/-- Two arrays of length 0 in an array pass as long as a byte string behind them has bytes. -/
theorem check_emptyElements :
    check [.array (.fixedArray (.uint 8) 0), .bytes]
      (Value.encodeAll [.array [.fixedArray [], .fixedArray []], .bytes [1, 2]]) = .ok () := by
  obtain ⟨abi, habi, -, h⟩ := @check_encode_eq_ok_iff
    [.dynArray (.array (.uint 8) 0) 3, .bytes 10]
    [.array [.fixedArray [], .fixedArray []], .bytes [1, 2]] _ (by decide) (by decide) rfl
    (by decide +kernel)
  cases habi
  exact h.2 (by decide +kernel)

/-- The encoder writes no offset for an array of length 0 where the check looks for one, and no
bytes for elements of which the check wants one each; and the check stops at the size of elements
that are not there. -/
theorem check_unanchored :
    (encode [.array (.string 5) 0, .uint 8] [.fixedArray [], .uint 7 8] =
        .ok (Value.numberWord 7) ∧
      check [.fixedArray .string 0, .uint 8] (Value.numberWord 7) = .error (.shortHead 0 64 32)) ∧
    (encode [.dynArray (.array (.uint 8) 0) 3] [.array [.fixedArray []]] =
        .ok (Value.numberWord 32 ++ Value.numberWord 1) ∧
      check [.array (.fixedArray (.uint 8) 0)] (Value.numberWord 32 ++ Value.numberWord 1) =
        .error (.arrayTooLong 1 32)) ∧
    (encode [.dynArray (.tuple [.array (.uint 256) Size.limit, .bool]) 3] [.array []] =
        .ok (Value.numberWord 32 ++ Value.numberWord 0) ∧
      check [.array (.tuple [.fixedArray (.uint 256) Size.limit, .bool])]
        (Value.numberWord 32 ++ Value.numberWord 0) = .error .oversized) := by
  decide +kernel

end Abi

end EvmInspect
