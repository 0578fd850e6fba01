import EvmInspect.Abi.Check
import EvmInspect.Proofs.Abi.Fits
import EvmInspect.Proofs.Integers
/-!
# What the strict check makes of encodings

A region that starts with the encoding of a suitable value passes the check, whatever follows it, so
long as no array in the value has more elements than there are bytes behind its length: the check
does not believe a length that the data cannot hold.  Only elements that take no bytes can be that
many.  Besides, the check has to get to the size of every element that it asks for.  Arrays are
checked as the tuples of their elements, so that there is one argument for all sequences.
-/

namespace EvmInspect

namespace Value

mutual

/-- No array in the value has more elements than there are bytes behind its length, where `behind`
bytes follow the encoding of the value. -/
def backed (behind : Nat) : Value → Bool
  | .array items =>
    items.length ≤ (assemble (parts items)).length + behind && allBacked behind items
  | .fixedArray items | .tuple items | .struct _ _ items => allBacked behind items
  | _ => true

def allBacked (behind : Nat) : List Value → Bool
  | [] => true
  | v :: vs => v.backed (tailsSize (parts vs) + behind) && allBacked behind vs

end

mutual

theorem backed_of_static : ∀ {v : Value} (behind : Nat), v.isDynamic = false →
    v.backed behind = true
  | .bool _, _, _ | .int _ _, _, _ | .uint _ _, _, _ | .address _, _, _ | .function _, _, _
  | .fixedBytes _ _, _, _ | .bytes _, _, _ | .string _, _, _ => by rw [backed] <;> simp
  | .array _, _, h => by simp [isDynamic] at h
  | .fixedArray _, behind, h | .tuple _, behind, h | .struct _ _ _, behind, h => by
    rw [backed]
    exact allBacked_of_static behind h

theorem allBacked_of_static : ∀ {vs : List Value} (behind : Nat), anyDynamic vs = false →
    allBacked behind vs = true
  | [], _, _ => by rw [allBacked]
  | v :: vs, behind, h => by
    rw [anyDynamic, Bool.or_eq_false_iff] at h
    rw [allBacked, backed_of_static _ h.1, allBacked_of_static _ h.2, Bool.and_self]

end

theorem allBacked_of_forall {vs : List Value} (behind : Nat)
    (h : ∀ v ∈ vs, ∀ behind, v.backed behind = true) : allBacked behind vs = true := by
  induction vs with
  | nil => rw [allBacked]
  | cons v vs ih =>
    rw [List.forall_mem_cons] at h
    rw [allBacked, h.1, ih h.2, Bool.and_self]

theorem le_length_encode_of_dynamic {v : Value} (h : v.isDynamic = true) :
    32 ≤ v.encode.length := by
  have hsequence {items : List Value} (h : anyDynamic items = true) :
      32 ≤ (assemble (parts items)).length := by
    refine Nat.le_trans ?_ (headsSize_le_length_assemble _)
    induction items with
    | nil => simp [anyDynamic] at h
    | cons v vs ih =>
      rw [parts_cons, headsSize_cons]
      rw [anyDynamic, Bool.or_eq_true] at h
      rcases h with hv | hvs
      · rw [partHead_dynamic hv]
        exact Nat.le_add_right _ _
      · exact Nat.le_trans (ih hvs) (Nat.le_add_left _ _)
  cases v with
  | bool | int | uint | address | function | fixedBytes => simp [isDynamic] at h
  | bytes | string | array => simp [encode]
  | fixedArray items | tuple items | struct _ _ items =>
    rw [isDynamic] at h
    rw [encode]
    exact hsequence h

theorem encode_eq_nil {v : Value} (h : partHead v.part = 0) : v.encode = [] := by
  cases hd : v.isDynamic with
  | true => simp [partHead_dynamic hd] at h
  | false => exact List.length_eq_zero_iff.1 (by rw [← partHead_static hd, h])

end Value

/-- Where nothing is empty, every element takes a word. -/
theorem AbiType.Fits.backed {t : AbiType} {v : Value} (h : t.Fits v) (behind : Nat) :
    v.backed behind = true := by
  induction h generalizing behind with
  | bool | int | uint | fixedBytes | address | bytes | string => rw [Value.backed] <;> simp
  | @array elem items _ _ hitems ih =>
    have hheads := Value.headsSize_le_length_assemble (Value.parts items)
    have hwords := Value.mul_length_le_headsSize fun v hv => (hitems v hv).le_length_encode
    rw [Value.backed, Value.allBacked_of_forall behind ih, Bool.and_true, decide_eq_true_eq]
    omega
  | fixedArray _ _ _ ih =>
    rw [Value.backed]
    exact Value.allBacked_of_forall behind ih
  | tuple _ hlen _ ih =>
    rw [Value.backed]
    exact Value.allBacked_of_forall behind (forall_of_forall₂ (forall₂_of_zip hlen ih))

namespace Abi

open Value (part parts partHead numberWord layOut tailsSize)

/-! ## Words and numbers -/

theorem wordAt_of_starts {word region : List UInt8} (pos base : Nat)
    (hlen : word.length = 32) (h : word <+: region.drop pos) :
    wordAt region pos base = .ok word := by
  have htake := take_of_prefix_drop h
  rw [hlen] at htake
  simp only [wordAt, htake, hlen, if_true]

theorem natOfBytes_numberWord {n : Nat} (h : n ≤ Size.limit) : natOfBytes (numberWord n) = n :=
  natOfBytes_bytesOfNat_of_lt (Nat.lt_of_le_of_lt h (by decide))

theorem numberAt_of_starts {region : List UInt8} {pos n : Nat} (base : Nat) (role : Role)
    (hn : n ≤ Size.limit) (h : numberWord n <+: region.drop pos) :
    numberAt region pos base role = .ok n := by
  unfold numberAt
  rw [wordAt_of_starts pos base (Value.length_numberWord n) h]
  simp only [bind, Except.bind, natOfBytes_numberWord hn, if_pos hn, pure, Except.pure]

theorem require_eq_ok {condition : Bool} {fault : Fault} :
    require condition fault = .ok () ↔ condition = true := by
  cases condition <;> simp [require]

/-! ## Sequences -/

/-- The check accepts the value at the start of an addressable region, and gets to its place before,
exactly if all lengths in it are backed by what follows them and the elements of its arrays are
measured. -/
def Accepts (t : AbiType) (v : Value) : Prop :=
  ∀ (region : List UInt8) (base : Nat), region.length ≤ Size.limit → v.encode <+: region →
    (t.Measured ∧ checkValue t region base = .ok () ↔
      v.backed (region.length - v.encode.length) = true ∧ t.measures v = true)

theorem checkPlaced_static {t : AbiType} {v : Value} (hsuits : t.Suits v) (haccept : Accepts t v)
    {region : List UInt8} (base head : Nat) {pos : Nat} (hregion : region.length ≤ Size.limit)
    (hd : v.isDynamic = false) (h : v.encode <+: region.drop pos) :
    t.Measured ∧ checkPlaced t t.headSize (checkValue t) region base head pos = .ok () ↔
      t.measures v = true := by
  have hlen := h.length_le
  rw [List.length_drop] at hlen
  have hsize := hsuits.headSize_eq (by rw [Value.partHead_static hd]; omega)
  rw [Value.partHead_static hd] at hsize
  have hinside := haccept ((region.drop pos).take v.encode.length) (base + pos)
    (by rw [List.length_take, List.length_drop]; omega)
    ⟨[], by rw [List.append_nil, take_of_prefix_drop h]⟩
  rw [Value.backed_of_static _ hd, iff_true_intro rfl, true_and] at hinside
  rw [checkPlaced, hsuits.isDynamic_eq, hd, if_neg (by simp), hsize]
  exact hinside

theorem checkPlaced_dynamic {t : AbiType} {v : Value} (hsuits : t.Suits v) (haccept : Accepts t v)
    {region : List UInt8} (base : Nat) {head pos offset : Nat}
    (hregion : region.length ≤ Size.limit) (hd : v.isDynamic = true) (hhead : head ≤ offset)
    (hword : numberWord offset <+: region.drop pos) (hbody : v.encode <+: region.drop offset) :
    t.Measured ∧ checkPlaced t t.headSize (checkValue t) region base head pos = .ok () ↔
      v.backed (region.length - offset - v.encode.length) = true ∧ t.measures v = true := by
  have hlen := hbody.length_le
  have hword32 := Value.le_length_encode_of_dynamic hd
  rw [List.length_drop] at hlen
  have htail : tailAt region pos base head = .ok (region.drop offset, offset) := by
    unfold tailAt
    rw [numberAt_of_starts base .offset (by omega) hword]
    simp [bind, Except.bind, require, hhead, (by omega : offset < region.length), pure,
      Except.pure]
  have hinside := haccept (region.drop offset) (base + offset)
    (by rw [List.length_drop]; omega) hbody
  rw [List.length_drop] at hinside
  rw [checkPlaced, hsuits.isDynamic_eq, hd, if_pos rfl, htail]
  exact hinside

theorem checkMembers_cons_eq_ok {t : AbiType} {ts : List AbiType} {region : List UInt8}
    {base head pos : Nat} :
    checkMembers (t :: ts) region base head pos = .ok () ↔
      (t.Measured ∧ checkPlaced t t.headSize (checkValue t) region base head pos = .ok ()) ∧
        checkMembers ts region base head (pos + t.headSize) = .ok () := by
  simp only [checkMembers, sized_bind_eq_ok, check_bind_eq_ok, AbiType.headSize?_eq_some]
  constructor
  · rintro ⟨size, ⟨hmeasured, rfl⟩, hhere, hrest⟩
    exact ⟨⟨hmeasured, hhere⟩, hrest⟩
  · rintro ⟨⟨hmeasured, hhere⟩, hrest⟩
    exact ⟨_, ⟨hmeasured, rfl⟩, hhere, hrest⟩

theorem measured_of_checkMembers {types : List AbiType} {region : List UInt8}
    {base head pos : Nat} (h : checkMembers types region base head pos = .ok ()) :
    ∀ t ∈ types, t.Measured := by
  induction types generalizing pos with
  | nil => simp
  | cons t ts ih =>
    obtain ⟨⟨hmeasured, -⟩, hrest⟩ := checkMembers_cons_eq_ok.1 h
    exact List.forall_mem_cons.2 ⟨hmeasured, ih hrest⟩

/-- Parts that stand where the encoder lays them out are checked one by one.  What follows the body
of a part are the bodies of later ones and the `behind` bytes that follow the sequence. -/
theorem checkMembers_of_layOut {types : List AbiType} {items : List Value}
    (h : List.Forall₂ (fun t v => t.Suits v ∧ Accepts t v) types items) {region : List UInt8}
    (base : Nat) {head pos offset behind : Nat} (hregion : region.length ≤ Size.limit)
    (hhead : head ≤ offset) (hbehind : offset + tailsSize (parts items) + behind = region.length)
    (hheads : (layOut offset (parts items)).1 <+: region.drop pos)
    (htails : (layOut offset (parts items)).2 <+: region.drop offset) :
    checkMembers types region base head pos = .ok () ↔
      Value.allBacked behind items = true ∧ AbiType.allMeasure types items = true := by
  induction h generalizing pos offset with
  | nil => simp [checkMembers, Value.allBacked, AbiType.allMeasure]
  | @cons t v ts vs hv _ ih =>
    obtain ⟨hsuits, haccept⟩ := hv
    rw [Value.parts_cons] at hheads htails hbehind
    rw [checkMembers_cons_eq_ok, Value.allBacked, AbiType.allMeasure, Bool.and_eq_true,
      Bool.and_eq_true, and_and_and_comm]
    cases hd : v.isDynamic with
    | true =>
      have hpart : v.part = (true, v.encode) := by rw [part, hd]
      rw [hpart, Value.layOut_dynamic] at hheads htails
      obtain ⟨hword, hheads⟩ := append_prefix_drop.1 hheads
      obtain ⟨hbody, htails⟩ := append_prefix_drop.1 htails
      simp only [hpart, tailsSize, if_true] at hbehind
      have hrest : region.length - offset - v.encode.length = tailsSize (parts vs) + behind := by
        omega
      have hsize : t.headSize = 32 := by
        rw [hsuits.headSize_eq (by rw [Value.partHead_dynamic hd]; decide),
          Value.partHead_dynamic hd]
      rw [checkPlaced_dynamic hsuits haccept base hregion hd hhead hword hbody, hrest, hsize]
      rw [Value.length_numberWord] at hheads
      exact and_congr_right fun _ => ih (by omega) (by omega) hheads htails
    | false =>
      have hpart : v.part = (false, v.encode) := by rw [part, hd]
      rw [hpart, Value.layOut_static] at hheads htails
      obtain ⟨hhere, hheads⟩ := append_prefix_drop.1 hheads
      have hlen := hhere.length_le
      rw [List.length_drop] at hlen
      simp only [hpart, tailsSize, Bool.false_eq_true, if_false, Nat.zero_add] at hbehind
      have hsize : t.headSize = v.encode.length := by
        rw [hsuits.headSize_eq (by rw [Value.partHead_static hd]; omega),
          Value.partHead_static hd]
      rw [checkPlaced_static hsuits haccept base head hregion hd hhere,
        Value.backed_of_static _ hd, iff_true_intro rfl, true_and, hsize]
      exact and_congr_right fun _ => ih hhead hbehind hheads htails

theorem sum_headSize_eq {types : List AbiType} {items : List Value}
    (h : List.Forall₂ AbiType.Suits types items)
    (hle : Value.headsSize (parts items) ≤ Size.limit) :
    (types.map AbiType.headSize).sum = Value.headsSize (parts items) := by
  induction h with
  | nil => rfl
  | @cons t v ts vs hv _ ih =>
    rw [Value.parts_cons, Value.headsSize_cons] at hle ⊢
    rw [List.map_cons, List.sum_cons, hv.headSize_eq (by omega), ih (by omega)]

theorem headsSize_eq {types : List AbiType} {items : List Value}
    (h : List.Forall₂ AbiType.Suits types items)
    (hle : Value.headsSize (parts items) ≤ Size.limit) :
    AbiType.headsSize types = Value.headsSize (parts items) := by
  rw [AbiType.headsSize, sum_headSize_eq h hle, Nat.min_eq_left hle]

theorem checkValue_tuple_eq_ok {types : List AbiType} {region : List UInt8} {base : Nat} :
    checkValue (.tuple types) region base = .ok () ↔
      AbiType.headsSize types ≤ region.length ∧
        checkMembers types region base (AbiType.headsSize types) 0 = .ok () := by
  simp only [checkValue, sized_bind_eq_ok, check_bind_eq_ok, AbiType.headsSize?_eq_some,
    require_eq_ok, decide_eq_true_eq]
  constructor
  · rintro ⟨head, ⟨-, rfl⟩, hrest⟩
    exact hrest
  · rintro ⟨hheads, hmembers⟩
    exact ⟨_, ⟨measured_of_checkMembers hmembers, rfl⟩, hheads, hmembers⟩

theorem checkValue_tuple {types : List AbiType} {items : List Value}
    (h : List.Forall₂ (fun t v => t.Suits v ∧ Accepts t v) types items) {region : List UInt8}
    (base : Nat) (hregion : region.length ≤ Size.limit)
    (hstart : Value.assemble (parts items) <+: region) :
    checkValue (.tuple types) region base = .ok () ↔
      Value.allBacked (region.length - (Value.assemble (parts items)).length) items = true ∧
        AbiType.allMeasure types items = true := by
  have hlen := hstart.length_le
  rw [Value.length_assemble] at hlen ⊢
  have hheadsSize := headsSize_eq (h.imp fun _ _ hv => hv.1) (by omega)
  rw [checkValue_tuple_eq_ok, hheadsSize, iff_true_intro (show _ ≤ region.length by omega),
    true_and]
  rw [Value.assemble_eq, ← List.drop_zero (l := region)] at hstart
  obtain ⟨hheads, htails⟩ := append_prefix_drop.1 hstart
  rw [Value.length_heads, Nat.zero_add] at htails
  exact checkMembers_of_layOut h base hregion (Nat.le_refl _) (by omega) hheads htails

/-! ## Arrays as tuples -/

theorem checkMembers_replicate {t : AbiType} (ht : t.Measured) (n : Nat) (region : List UInt8)
    (base head pos : Nat) :
    checkMembers (List.replicate n t) region base head pos =
      checkCopies (checkPlaced t t.headSize (checkValue t) region base head) t.headSize n pos := by
  induction n generalizing pos with
  | zero => rfl
  | succ n ih =>
    rw [List.replicate_succ, checkMembers, checkCopies, ht.headSize?_eq]
    change (checkPlaced t t.headSize (checkValue t) region base head pos >>= _) = _
    cases checkPlaced t t.headSize (checkValue t) region base head pos with
    | ok => exact ih _
    | error => rfl

theorem headsSize_replicate (t : AbiType) (n : Nat) :
    AbiType.headsSize (List.replicate n t) = Size.mul n t.headSize := by
  rw [AbiType.headsSize, List.map_replicate, List.sum_replicate_nat, Size.mul]

theorem headsSize?_replicate {t : AbiType} (ht : t.Measured) (n : Nat) :
    AbiType.headsSize? (List.replicate n t) = some (Size.mul n t.headSize) := by
  rw [AbiType.headsSize?_eq (fun u hu => List.eq_of_mem_replicate hu ▸ ht), headsSize_replicate]

theorem checkValue_fixedArray (t : AbiType) (n : Nat) (region : List UInt8) (base : Nat) :
    checkValue (.fixedArray t n) region base =
      checkValue (.tuple (List.replicate n t)) region base := by
  cases n with
  | zero => rfl
  | succ n =>
    rw [checkValue, checkValue, if_neg (Nat.succ_ne_zero n)]
    by_cases ht : t.Measured
    · rw [headsSize?_replicate ht, ht.headSize?_eq]
      simp only [checkMembers_replicate ht]
      rfl
    · have hnone : AbiType.headsSize? (List.replicate (n + 1) t) = none := by
        rw [← Option.not_isSome_iff_eq_none, Option.isSome_iff_exists]
        rintro ⟨size, hsize⟩
        exact ht ((AbiType.headsSize?_eq_some.1 hsize).1 t (by simp))
      rw [hnone, AbiType.headSize?_eq_none ht]
      rfl

theorem checkValue_array_eq_ok {t : AbiType} {region : List UInt8} {base n : Nat}
    (hn : numberAt region 0 base .length = .ok n) :
    checkValue (.array t) region base = .ok () ↔
      t.Measured ∧ n ≤ (region.drop 32).length / max t.headSize 1 ∧
        checkValue (.tuple (List.replicate n t)) (region.drop 32) (base + 32) = .ok () := by
  rw [checkValue, checkValue, hn]
  by_cases ht : t.Measured
  · rw [headsSize?_replicate ht, ht.headSize?_eq, iff_true_intro ht, true_and]
    simp only [checkMembers_replicate ht, bind, Except.bind, sized, require, decide_eq_true_eq]
    by_cases hfits : n ≤ (region.drop 32).length / max t.headSize 1
    · simp only [hfits, if_true, true_and]
    · simp only [hfits, if_false, false_and, reduceCtorEq]
  · rw [AbiType.headSize?_eq_none ht]
    simp [ht, bind, Except.bind, sized]

/-! ## All types -/

theorem allZero_replicate (n : Nat) : allZero (List.replicate n 0) = true := by
  simp [allZero]

theorem numberAt_counted {region rest : List UInt8} {n : Nat} (base : Nat) (hn : n ≤ Size.limit)
    (h : numberWord n ++ rest <+: region) : numberAt region 0 base .length = .ok n := by
  apply numberAt_of_starts base .length hn
  exact (List.prefix_append _ _).trans h

theorem drop_counted {region rest : List UInt8} {n : Nat} (h : numberWord n ++ rest <+: region) :
    rest <+: region.drop 32 := by
  rw [← List.drop_zero (l := region)] at h
  have hsplit := append_prefix_drop.1 h
  rw [Value.length_numberWord, Nat.zero_add] at hsplit
  exact hsplit.2

/-- Elements whose heads are there are no more than the data can hold, unless they take no bytes;
then every byte stands for one. -/
theorem le_div_max_iff {n size room : Nat} (h : n * size ≤ room) :
    n ≤ room / max size 1 ↔ n ≤ room := by
  rcases Nat.eq_zero_or_pos size with rfl | hpos
  · simp
  · have hle : n ≤ n * size := Nat.le_mul_of_pos_right _ hpos
    rw [Nat.max_eq_left hpos, Nat.le_div_iff_mul_le hpos]
    omega

theorem accepts_array {elem : AbiType} {items : List Value}
    (hcount : (∀ v ∈ items, v.encode = []) → items.length ≤ Size.limit)
    (hsuits : ∀ v ∈ items, elem.Suits v) (haccept : ∀ v ∈ items, Accepts elem v) :
    Accepts (.array elem) (.array items) := by
  intro region base hregion h
  have hbody := drop_counted h
  have hlen := h.length_le
  have hheads := Value.headsSize_le_length_assemble (parts items)
  rw [Value.encode, List.length_append, Value.length_numberWord] at hlen
  have hhead : ∀ v ∈ items, partHead v.part = elem.headSize := by
    intro v hv
    have hvle := Value.partHead_le_headsSize hv
    exact ((hsuits v hv).headSize_eq (by omega)).symm
  have hsize := Value.headsSize_parts_of_forall hhead
  have hcount : items.length ≤ Size.limit := by
    rcases Nat.eq_zero_or_pos elem.headSize with hzero | hpos
    · exact hcount fun v hv => Value.encode_eq_nil ((hhead v hv).trans hzero)
    · have hle : items.length ≤ items.length * elem.headSize := Nat.le_mul_of_pos_right _ hpos
      omega
  have hbehind : (region.drop 32).length - (Value.assemble (parts items)).length =
      region.length - (Value.array items).encode.length := by
    rw [Value.encode, List.length_append, Value.length_numberWord, List.length_drop]
    omega
  have hroom : items.length ≤ (region.drop 32).length ↔
      items.length ≤ (Value.assemble (parts items)).length +
        (region.length - (Value.array items).encode.length) := by
    rw [← hbehind, List.length_drop]
    omega
  have htuple := checkValue_tuple (forall₂_replicate fun v hv => ⟨hsuits v hv, haccept v hv⟩)
    (base + 32) (by rw [List.length_drop]; omega) hbody
  have harray : (AbiType.array elem).Measured := AbiType.measured_of_dynamic rfl
  rw [iff_true_intro harray, true_and, checkValue_array_eq_ok (numberAt_counted base hcount h),
    htuple, hbehind, le_div_max_iff (by rw [← hsize, List.length_drop]; omega),
    AbiType.allMeasure_replicate, Value.backed, AbiType.measures, Bool.and_eq_true,
    Bool.and_eq_true, decide_eq_true_eq, hroom, AbiType.Measured]
  constructor
  · rintro ⟨hmeasured, hbacked, hall, hmeasures⟩
    exact ⟨⟨hbacked, hall⟩, hmeasured, hmeasures⟩
  · rintro ⟨⟨hbacked, hall⟩, hmeasured, hmeasures⟩
    exact ⟨hmeasured, hbacked, hall, hmeasures⟩

theorem accepts_of_ok {t : AbiType} {v : Value} (hmeasured : t.Measured)
    (hmeasures : t.measures v = true) (hbacked : ∀ behind, v.backed behind = true)
    (h : ∀ (region : List UInt8) (base : Nat), region.length ≤ Size.limit → v.encode <+: region →
      checkValue t region base = .ok ()) : Accepts t v := by
  intro region base hregion hstart
  exact iff_of_true ⟨hmeasured, h region base hregion hstart⟩ ⟨hbacked _, hmeasures⟩

theorem accepts_of_suits {t : AbiType} {v : Value} (h : t.Suits v) : Accepts t v := by
  induction h with
  | bool b =>
    refine accepts_of_ok rfl rfl (fun _ => rfl) fun region base _ h => ?_
    have hn : natOfBytes (numberWord (if b then 1 else 0)) = if b then 1 else 0 :=
      natOfBytes_numberWord (by cases b <;> decide)
    rw [checkValue, wordAt_of_starts 0 base (by simp [Value.encode]) h]
    cases b <;> simp_all [Value.encode, bind, Except.bind, require]
  | int hword | uint hword =>
    refine accepts_of_ok rfl rfl (fun _ => rfl) fun region base _ h => ?_
    rw [checkValue, wordAt_of_starts 0 base (by simp [Value.encode]) h]
    simp [Value.encode, bind, Except.bind, require, hword]
  | fixedBytes hword =>
    refine accepts_of_ok rfl rfl (fun _ => rfl) fun region base _ h => ?_
    rw [checkValue, wordAt_of_starts 0 base (by simp [Value.encode]) h]
    simp only [Value.encode, bind, Except.bind, require, allZero, hword, if_true]
  | address a =>
    refine accepts_of_ok rfl rfl (fun _ => rfl) fun region base _ h => ?_
    have hzero : allZero (a.toWord.toBytes.take 12) = true := by
      rw [Address.toBytes_toWord, List.take_left' (by simp), allZero_replicate]
    rw [checkValue, wordAt_of_starts 0 base (by simp [Value.encode]) h]
    simp only [Value.encode, bind, Except.bind, require, hzero, if_true]
  | bytes data =>
    refine accepts_of_ok rfl rfl (fun _ => rfl) fun region base hregion h => ?_
    have hlen := h.length_le
    simp only [Value.encode, Value.padded, List.length_append, Value.length_numberWord] at hlen
    rw [checkValue, numberAt_counted base (by omega) h]
    simp only [bind, Except.bind, require]
    rw [decide_eq_true (by omega)]
    rfl
  | string s =>
    refine accepts_of_ok rfl rfl (fun _ => rfl) fun region base hregion h => ?_
    have hlen := h.length_le
    simp only [Value.encode, Value.padded, List.length_append, Value.length_numberWord,
      Text.length_toUtf8] at hlen
    have hdata : (region.drop 32).take s.utf8ByteSize = Text.toUtf8 s := by
      have hbody := (List.prefix_append _ _).trans (drop_counted h)
      rw [← Text.length_toUtf8 s]
      exact take_of_prefix_drop hbody
    rw [checkValue, numberAt_counted base (by omega) h]
    simp only [bind, Except.bind, require, hdata, Text.ofUtf8?_toUtf8]
    rw [decide_eq_true (by omega)]
    rfl
  | array hcount hitems ih => exact accepts_array hcount hitems ih
  | fixedArray _ hitems ih =>
    intro region base hregion h
    rw [checkValue_fixedArray, Value.backed, AbiType.measured_fixedArray, AbiType.measures,
      checkValue_tuple (forall₂_replicate fun v hv => ⟨hitems v hv, ih v hv⟩) base hregion h,
      AbiType.allMeasure_replicate, Bool.and_eq_true, AbiType.Measured]
    exact and_left_comm
  | @tuple members items hlen hitems ih =>
    intro region base hregion h
    have hsuits := forall₂_of_zip hlen hitems
    have hheads := h.length_le
    have hle := Value.headsSize_le_length_assemble (parts items)
    rw [Value.encode] at hheads
    have htuple := checkValue_tuple (forall₂_of_zip hlen fun t v hv => ⟨hitems t v hv, ih t v hv⟩)
      base hregion h
    have hmeasured (hcheck : checkValue (.tuple members) region base = .ok ()) :
        (AbiType.tuple members).Measured := by
      refine AbiType.measured_tuple
        (measured_of_checkMembers (checkValue_tuple_eq_ok.1 hcheck).2) ?_
      rw [sum_headSize_eq hsuits (by omega)]
      omega
    rw [Value.backed, AbiType.measures, Value.encode, ← htuple]
    exact and_iff_right_of_imp hmeasured

end Abi

end EvmInspect
