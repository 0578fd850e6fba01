import EvmInspect.Proofs.Layout.Storage
/-!
# Zeros and zero values

Where a source gives zeros only, a type without mappings is decoded to its zero value, provided that
decoding forms no offset that is not addressable.  A type in which nothing has a length of its own
is decoded to its zero value from nothing but zeros.
-/

namespace EvmInspect

/-! ## How far decoding reaches -/

namespace Ty

mutual

/-- Bytes from the start of a value to its end.  Members are added up as they are, while each byte
string, text and dynamic array counts with its clamped size. -/
def span : Ty → Nat
  | .uint _ | .int _ | .bool | .address | .fixedBytes _ | .mapping _ _ => Size.wordBytes
  | .bytes bound => (Ty.bytes bound).layoutSize
  | .string bound => (Ty.string bound).layoutSize
  | .dynArray elem bound => (Ty.dynArray elem bound).layoutSize
  | .array elem n => n * elem.span
  | .tuple members => membersSpan members
  | .struct _ fields => fieldsSpan fields

def membersSpan : List Ty → Nat
  | [] => 0
  | t :: ts => t.span + membersSpan ts

def fieldsSpan : List (String × Ty) → Nat
  | [] => 0
  | f :: fs => f.2.span + fieldsSpan fs

end

/-- How far behind its start the decoding of a zero value forms offsets: to the end of the members
of a sequence, and to the end of a length word. -/
def reach : Ty → Nat
  | .uint _ | .int _ | .bool | .address | .fixedBytes _ | .mapping _ _ => 0
  | .bytes _ | .string _ | .dynArray _ _ => Size.wordBytes
  | .array elem n => (Ty.array elem n).span
  | .tuple members => (Ty.tuple members).span
  | .struct name fields => (Ty.struct name fields).span

theorem membersSpan_eq_sum (members : List Ty) : membersSpan members = (members.map span).sum := by
  induction members with
  | nil => rfl
  | cons t ts ih => rw [membersSpan, ih, List.map_cons, List.sum_cons]

theorem fieldsSpan_eq (fields : List (String × Ty)) :
    fieldsSpan fields = membersSpan (fields.map Prod.snd) := by
  induction fields with
  | nil => rfl
  | cons f fs ih => rw [fieldsSpan, ih]; rfl

theorem membersSpan_replicate (n : Nat) (t : Ty) :
    membersSpan (List.replicate n t) = n * t.span := by
  induction n with
  | zero => rw [List.replicate_zero, membersSpan, Nat.zero_mul]
  | succ n ih => rw [List.replicate_succ, membersSpan, ih, Nat.succ_mul, Nat.add_comm]

theorem layoutSize_eq_min_span (t : Ty) : t.layoutSize = min t.span Size.limit := by
  induction t using memberInduction with
  | uint | int | bool | address | fixedBytes | mapping => rfl
  | bytes | string | dynArray =>
    rw [span]
    exact (Nat.min_eq_left (Nat.min_le_right _ _)).symm
  | array elem n ih => rw [layoutSize, span, ih, Size.mul, mul_min_limit]
  | tuple members ih =>
    rw [layoutSize, span, membersLayoutSize_eq_sum ih (Nat.zero_le _), Nat.zero_add,
      membersSpan_eq_sum]
  | struct name fields ih =>
    rw [layoutSize, span, fieldsLayoutSize_eq, fieldsSpan_eq,
      membersLayoutSize_eq_sum ih (Nat.zero_le _), Nat.zero_add, membersSpan_eq_sum]

theorem layoutSize_eq_span {t : Ty} (h : t.span ≤ Size.limit) : t.layoutSize = t.span := by
  rw [layoutSize_eq_min_span, Nat.min_eq_left h]

/-- Behind a length word there may be nothing. -/
theorem wordBytes_le_layoutSize (n : Nat) : Size.wordBytes ≤ Size.add n Size.wordBytes := by
  have hlimit : Size.wordBytes ≤ Size.limit := by decide
  rw [Size.add]
  omega

theorem reach_le_span (t : Ty) : t.reach ≤ t.span := by
  cases t with
  | uint | int | bool | address | fixedBytes | mapping => exact Nat.zero_le _
  | bytes | string | dynArray =>
    rw [reach, span]
    exact wordBytes_le_layoutSize _
  | array | tuple | struct => exact Nat.le_refl _

/-- Only the size of a sequence can be more than what is addressable. -/
theorem layoutSize_eq_span_of_reach {t : Ty} (h : t.reach ≤ Size.limit) :
    t.layoutSize = t.span := by
  cases t with
  | uint | int | bool | address | fixedBytes | mapping => rfl
  | bytes | string | dynArray => rw [span]
  | array | tuple | struct => exact layoutSize_eq_span h

/-- Nothing in the type has a length of its own. -/
def static (t : Ty) : Bool := t.everywhere fun
  | .bytes _ | .string _ | .dynArray _ _ => false
  | _ => true

end Ty

namespace Word

theorem fitsUnsigned_zero (bits : Nat) : (0 : Word).fitsUnsigned bits = true := by
  simp [fitsUnsigned, bitLength]

theorem fitsSigned_zero (bits : Nat) : (0 : Word).fitsSigned bits = true := by
  simp [fitsSigned]

theorem toBytes_zero : (0 : Word).toBytes = List.replicate 32 0 := bytesOfNat_zero 32

end Word

namespace Layout

/-! ## Sources of bytes that stand still -/

namespace Source

/-- The source gives as many bytes as it is asked for, and two ranges in a row as one, up to the
size of a word. -/
structure Seamless (src : Source) : Prop where
  length {offset n : Nat} {bytes : List UInt8} : src offset n = .ok bytes → bytes.length = n
  append {offset m n : Nat} {bytes : List UInt8} : m + n ≤ Size.wordBytes →
    (src offset (m + n) = .ok bytes ↔ ∃ front back,
      src offset m = .ok front ∧ src (offset + m) n = .ok back ∧ bytes = front ++ back)

/-- Each byte of a window is zero. -/
def ZeroOn (src : Source) (offset size : Nat) : Prop :=
  ∀ i < size, src (offset + i) 1 = .ok [0]

variable {src : Source} {offset size n : Nat}

theorem ZeroOn.mono {smaller : Nat} (h : src.ZeroOn offset size) (hle : smaller ≤ size) :
    src.ZeroOn offset smaller :=
  fun i hi => h i (Nat.lt_of_lt_of_le hi hle)

theorem zeroOn_add {m n : Nat} :
    src.ZeroOn offset (m + n) ↔ src.ZeroOn offset m ∧ src.ZeroOn (offset + m) n := by
  constructor
  · intro h
    refine ⟨h.mono (Nat.le_add_right m n), fun i hi => ?_⟩
    rw [Nat.add_assoc]
    exact h (m + i) (by omega)
  · rintro ⟨hfront, hback⟩ i hi
    rcases Nat.lt_or_ge i m with hlt | hge
    · exact hfront i hlt
    · obtain ⟨j, rfl⟩ := Nat.exists_eq_add_of_le hge
      rw [← Nat.add_assoc]
      exact hback j (by omega)

namespace Seamless

theorem read_nil (hsrc : src.Seamless) {byte : List UInt8} (h : src offset 1 = .ok byte) :
    src offset 0 = .ok [] ∧ src (offset + 1) 0 = .ok [] := by
  constructor
  · obtain ⟨front, -, hfront, -, -⟩ := (hsrc.append (m := 0) (n := 1) (by decide)).1 h
    rw [hfront, List.length_eq_zero_iff.1 (hsrc.length hfront)]
  · obtain ⟨-, back, -, hback, -⟩ := (hsrc.append (m := 1) (n := 0) (by decide)).1 h
    rw [hback, List.length_eq_zero_iff.1 (hsrc.length hback)]

theorem read_zeros (hsrc : src.Seamless) (h : src.ZeroOn offset size) (hsize : 0 < size)
    {start : Nat} (hend : start + n ≤ size) (hword : n ≤ Size.wordBytes) :
    src (offset + start) n = .ok (List.replicate n 0) := by
  induction n with
  | zero =>
    -- an empty range begins or ends at a byte of the window
    rcases Nat.eq_zero_or_pos start with rfl | hstart
    · exact (hsrc.read_nil (h 0 hsize)).1
    · have hbefore := (hsrc.read_nil (h (start - 1) (by omega))).2
      rwa [Nat.add_assoc, Nat.sub_add_cancel hstart] at hbefore
  | succ n ih =>
    have hlast := h (start + n) (by omega)
    rw [← Nat.add_assoc] at hlast
    exact (hsrc.append hword).2 ⟨_, _, ih (by omega) (by omega), hlast, List.replicate_succ'⟩

theorem zeroOn_of_read (hsrc : src.Seamless) (hword : n ≤ Size.wordBytes)
    (h : src offset n = .ok (List.replicate n 0)) : src.ZeroOn offset n := by
  intro i hi
  obtain ⟨rest, rfl⟩ := Nat.exists_eq_add_of_lt hi
  rw [Nat.add_assoc, Nat.add_comm rest 1] at h hword
  obtain ⟨front, back, -, hback, hwhole⟩ := (hsrc.append hword).1 h
  obtain ⟨byte, tail, hbyte, -, rfl⟩ := (hsrc.append (by omega)).1 hback
  have hzero : byte = List.replicate 1 0 := by
    refine List.eq_replicate_iff.2 ⟨hsrc.length hbyte, fun b hb => ?_⟩
    have hmem : b ∈ front ++ (byte ++ tail) := by simp [hb]
    rw [← hwhole] at hmem
    exact List.eq_of_mem_replicate hmem
  rw [hbyte, hzero]
  rfl

end Seamless

theorem seamless_ofBytes (data : List UInt8) : (ofBytes data).Seamless where
  length := by
    intro offset n bytes h
    obtain ⟨hlen, h⟩ := ite_error_eq_ok.1 h
    cases h
    rw [List.length_take, List.length_drop]
    omega
  append := by
    intro offset m n bytes _
    have hsplit : (data.drop offset).take (m + n) =
        (data.drop offset).take m ++ (data.drop (offset + m)).take n := by
      rw [List.take_add, List.drop_drop]
    simp only [ofBytes, ite_error_eq_ok, Except.ok.injEq]
    constructor
    · rintro ⟨hlen, rfl⟩
      exact ⟨_, _, ⟨by omega, rfl⟩, ⟨by omega, rfl⟩, hsplit⟩
    · rintro ⟨_, _, ⟨-, rfl⟩, ⟨hlen, rfl⟩, rfl⟩
      exact ⟨by omega, hsplit⟩

/-- Memory holds the bytes of its image, and zeros behind them. -/
theorem ofMemory_eq (image : List UInt8) (offset : Nat) (h : n ≤ Size.bufferLimit) :
    ofMemory image offset n = .ok ((List.range n).map fun i => image.getD (offset + i) 0) := by
  rw [ofMemory, if_neg (Nat.not_lt.2 h)]
  refine congrArg Except.ok (List.ext_getElem? fun i => ?_)
  rw [List.getElem?_append, List.getElem?_take, List.getElem?_drop, List.getElem?_replicate,
    List.length_take, List.length_drop, List.getElem?_map]
  rcases Nat.lt_or_ge i n with hi | hi
  · rw [List.getElem?_range hi, Option.map_some, List.getD_eq_getElem?_getD]
    rcases Nat.lt_or_ge (offset + i) image.length with hin | hout
    · rw [if_pos (by omega), if_pos hi, List.getElem?_eq_getElem hin]
      rfl
    · rw [if_neg (by omega), if_pos (by omega), List.getElem?_eq_none hout]
      rfl
  · rw [if_neg (by omega), if_neg (by omega), List.getElem?_eq_none (by simpa using hi)]
    rfl

theorem seamless_ofMemory (image : List UInt8) : (ofMemory image).Seamless where
  length := by
    intro offset n bytes h
    by_cases hn : n ≤ Size.bufferLimit
    · rw [ofMemory_eq image offset hn, Except.ok.injEq] at h
      rw [← h, List.length_map, List.length_range]
    · rw [ofMemory, if_pos (Nat.lt_of_not_le hn)] at h
      cases h
  append := by
    intro offset m n bytes hword
    have hheld : m + n ≤ Size.bufferLimit := Nat.le_trans hword (by decide)
    rw [ofMemory_eq _ _ hheld, ofMemory_eq _ _ (by omega), ofMemory_eq _ _ (by omega)]
    simp only [Except.ok.injEq]
    have hsplit : ((List.range (m + n)).map fun i => image.getD (offset + i) 0) =
        ((List.range m).map fun i => image.getD (offset + i) 0) ++
          (List.range n).map fun i => image.getD (offset + m + i) 0 := by
      simp only [List.range_add, List.map_append, List.map_map, Function.comp_def, Nat.add_assoc]
    constructor
    · rintro rfl
      exact ⟨_, _, rfl, rfl, hsplit⟩
    · rintro ⟨_, _, rfl, rfl, rfl⟩
      exact hsplit

theorem seamless_ofStorage (read : StorageReader) (address : Address) (base : Word) :
    (ofStorage read address base).Seamless where
  length h := (ofStorage_eq_ok.1 h).2.1
  append := by
    intro offset m n bytes hword
    have hheld : Held offset (m + n) := held_of_le_word hword
    have hfrontHeld : Held offset m := held_of_le_word (by omega)
    have hbackHeld : Held (offset + m) n := held_of_le_word (by omega)
    simp only [ofStorage_eq_ok, hheld, hfrontHeld, hbackHeld, and_true]
    constructor
    · rintro ⟨hend, hlen, hbytes⟩
      refine ⟨bytes.take m, bytes.drop m, ⟨by omega, ?_, fun i hi => ?_⟩, ⟨by omega, ?_, ?_⟩,
        (List.take_append_drop m bytes).symm⟩
      · rw [List.length_take]
        omega
      · rw [List.getElem?_take_of_lt hi]
        exact hbytes i (by omega)
      · rw [List.length_drop]
        omega
      · intro i hi
        rw [List.getElem?_drop, Nat.add_assoc]
        exact hbytes (m + i) (by omega)
    · rintro ⟨front, back, ⟨hfrontEnd, hfront, hfrontBytes⟩, ⟨hbackEnd, hback, hbackBytes⟩, rfl⟩
      refine ⟨by omega, by rw [List.length_append]; omega, fun i hi => ?_⟩
      rcases Nat.lt_or_ge i m with hlt | hge
      · rw [List.getElem?_append_left (by omega)]
        exact hfrontBytes i hlt
      · obtain ⟨j, rfl⟩ := Nat.exists_eq_add_of_le hge
        rw [List.getElem?_append_right (by omega), hfront, Nat.add_sub_cancel_left, ← Nat.add_assoc]
        exact hbackBytes j (by omega)

end Source

variable {src : Source} {t : Ty} {members : List Ty} {offset : Nat}

/-! ## Words of zeros -/

theorem wordAt_eq_zero (hsrc : src.Seamless) :
    wordAt src offset = .ok 0 ↔ src.ZeroOn offset 32 := by
  constructor
  · intro h
    obtain ⟨bytes, hread, hword⟩ := map_eq_ok.1 h
    have hbytes := Word.toBytes_ofBytes (hsrc.length hread)
    rw [hword, Word.toBytes_zero] at hbytes
    rw [← hbytes] at hread
    exact hsrc.zeroOn_of_read (Nat.le_refl _) hread
  · intro h
    have hread := hsrc.read_zeros h (by decide) (Nat.le_refl (0 + 32)) (Nat.le_refl _)
    rw [Nat.add_zero, ← Word.toBytes_zero] at hread
    rw [wordAt, hread, Except.map, Word.ofBytes_toBytes]

theorem decode_word_of_zero (hword : t.isWord = true) (h : wordAt src offset = .ok 0) :
    ∃ v, decode src t offset = .ok v ∧ v.isZero = true := by
  cases t with
  | uint bits =>
    refine ⟨.uint 0 bits, ?_, rfl⟩
    rw [decode, h]
    simp only [bind, Except.bind, Ty.checkUnsigned, Word.fitsUnsigned_zero, if_true, checked]
  | int bits =>
    refine ⟨.int 0 bits, ?_, rfl⟩
    rw [decode, h]
    simp only [bind, Except.bind, Ty.checkSigned, Word.fitsSigned_zero, if_true, checked]
  | bool =>
    refine ⟨.bool false, ?_, rfl⟩
    rw [decode, h]
    rfl
  | address =>
    refine ⟨.address 0, ?_, rfl⟩
    have hclean : (0 : Word).toNat >>> 160 = 0 := Nat.zero_shiftRight 160
    rw [decode, h]
    simp only [bind, Except.bind, hclean, if_true, pure, Except.pure]
    rfl
  | fixedBytes size =>
    refine ⟨.fixedBytes 0 size, ?_, rfl⟩
    have hclean : ((0 : Word).toBytes.drop size).all (· == 0) = true := by
      rw [Word.toBytes_zero, List.drop_replicate]
      simp
    rw [decode, h]
    simp only [bind, Except.bind, hclean, if_true, pure, Except.pure]
  | bytes | string | array | dynArray | tuple | struct | mapping => simp [Ty.isWord] at hword

theorem laid_word_zero {v : Value} {image : List UInt8} (hword : t.isWord = true)
    (h : Laid t v image) (hzero : v.isZero = true) : image = List.replicate 32 0 := by
  cases t with
  | uint | int | fixedBytes =>
    cases v <;> simp only [Laid] at h
    rw [h, beq_iff_eq.1 hzero, Word.toBytes_zero]
  | bool =>
    cases v <;> simp only [Laid] at h
    rw [Value.isZero, Bool.not_eq_true'] at hzero
    rw [h, hzero]
    exact bytesOfNat_zero 32
  | address =>
    cases v <;> simp only [Laid] at h
    rw [h, beq_iff_eq.1 hzero]
    rfl
  | bytes | string | array | dynArray | tuple | struct | mapping => simp [Ty.isWord] at hword

/-! ## Zeros that are decoded -/

def ZeroDecodes (src : Source) (t : Ty) : Prop :=
  ∀ {offset : Nat}, src.ZeroOn offset t.layoutSize → offset + t.reach ≤ Size.limit →
    ∃ v, decode src t offset = .ok v ∧ v.isZero = true

theorem decodeMembers_of_zero (h : ∀ t ∈ members, ZeroDecodes src t)
    (hzero : src.ZeroOn offset (Ty.membersSpan members))
    (hend : offset + Ty.membersSpan members ≤ Size.limit) :
    ∃ vs, decodeMembers src members offset = .ok vs ∧ Value.allZero vs = true := by
  induction members generalizing offset with
  | nil => exact ⟨[], rfl, rfl⟩
  | cons t ts ih =>
    rw [List.forall_mem_cons] at h
    rw [Ty.membersSpan] at hzero hend
    have hreach := t.reach_le_span
    have hsize : t.layoutSize = t.span := Ty.layoutSize_eq_span (by omega)
    obtain ⟨hhere, hthere⟩ := Source.zeroOn_add.1 hzero
    obtain ⟨v, hv, hvzero⟩ := h.1 (hsize ▸ hhere) (by omega)
    obtain ⟨vs, hvs, hvszero⟩ := ih h.2 hthere (by omega)
    refine ⟨v :: vs, ?_, by rw [Value.allZero, hvzero, hvszero]; rfl⟩
    have hnext : advance offset t.span = .ok (offset + t.span) := advance_of_le (by omega)
    rw [decodeMembers, hv, hsize]
    simp only [bind, Except.bind, hnext, hvs, pure, Except.pure]

theorem counted_of_zero {size : Nat} (ty : Ty) (bound : Nat) (hsrc : src.Seamless)
    (hzero : src.ZeroOn offset size) (hsize : 32 ≤ size) (hend : offset + 32 ≤ Size.limit) :
    lengthAt ty bound src offset = .ok 0 ∧ advance offset 32 = .ok (offset + 32) ∧
      src (offset + 32) 0 = .ok [] := by
  refine ⟨?_, advance_of_le hend, hsrc.read_zeros hzero (by omega) hsize (Nat.zero_le _)⟩
  have hlength : (0 : Word).toNat = 0 := rfl
  rw [lengthAt, (wordAt_eq_zero hsrc).2 (hzero.mono hsize)]
  simp only [bind, Except.bind, hlength, Nat.zero_le, and_self, if_true, pure, Except.pure]

theorem zeroDecodes (hsrc : src.Seamless) (hfree : t.mappingFree = true) : ZeroDecodes src t := by
  induction t using Ty.memberInduction with
  | uint | int | bool | address | fixedBytes =>
    intro offset hzero _
    exact decode_word_of_zero rfl ((wordAt_eq_zero hsrc).2 hzero)
  | bytes bound =>
    intro offset hzero hend
    obtain ⟨hlength, hstart, hdata⟩ :=
      counted_of_zero (.bytes bound) bound hsrc hzero (Ty.wordBytes_le_layoutSize _) hend
    refine ⟨.bytes [], ?_, rfl⟩
    rw [decode, hlength]
    simp only [bind, Except.bind, hstart, hdata, pure, Except.pure]
  | string bound =>
    intro offset hzero hend
    obtain ⟨hlength, hstart, hdata⟩ :=
      counted_of_zero (.string bound) bound hsrc hzero (Ty.wordBytes_le_layoutSize _) hend
    have hempty : Text.ofUtf8? [] = some "" := Text.ofUtf8?_toUtf8 ""
    refine ⟨.string "", ?_, rfl⟩
    rw [decode, hlength]
    simp only [bind, Except.bind, hstart, hdata, hempty, pure, Except.pure]
  | dynArray elem bound =>
    intro offset hzero hend
    obtain ⟨hlength, hstart, -⟩ :=
      counted_of_zero (.dynArray elem bound) bound hsrc hzero (Ty.wordBytes_le_layoutSize _) hend
    refine ⟨.array [], ?_, rfl⟩
    rw [decode, hlength]
    simp only [bind, Except.bind, hstart, decodeCopies, pure, Except.pure]
  | array elem n ih =>
    intro offset hzero hend
    simp only [Ty.mappingFree, Ty.everywhere, Bool.and_eq_true] at hfree
    rw [Ty.reach] at hend
    rw [Ty.layoutSize_eq_span (by omega)] at hzero
    rw [Ty.span, ← Ty.membersSpan_replicate] at hzero hend
    have helems : ∀ u ∈ List.replicate n elem, ZeroDecodes src u := by
      intro u hu
      rw [List.eq_of_mem_replicate hu]
      exact ih hfree.2
    obtain ⟨vs, hvs, hvszero⟩ := decodeMembers_of_zero helems hzero hend
    rw [decodeMembers_replicate] at hvs
    exact ⟨.fixedArray vs, by rw [decode, hvs]; rfl, hvszero⟩
  | tuple members ih =>
    intro offset hzero hend
    rw [Ty.reach] at hend
    rw [Ty.layoutSize_eq_span (by omega)] at hzero
    rw [Ty.span] at hzero hend
    have hmembers : ∀ u ∈ members, ZeroDecodes src u := fun u hu =>
      ih u hu ((Ty.everywhere_tuple hfree).2 u hu)
    obtain ⟨vs, hvs, hvszero⟩ := decodeMembers_of_zero hmembers hzero hend
    exact ⟨.tuple vs, by rw [decode, hvs]; rfl, hvszero⟩
  | struct name fields ih =>
    intro offset hzero hend
    rw [Ty.reach] at hend
    rw [Ty.layoutSize_eq_span (by omega)] at hzero
    rw [Ty.span, Ty.fieldsSpan_eq] at hzero hend
    have hmembers : ∀ u ∈ fields.map Prod.snd, ZeroDecodes src u := fun u hu =>
      ih u hu ((Ty.everywhere_struct hfree).2 u hu)
    obtain ⟨vs, hvs, hvszero⟩ := decodeMembers_of_zero hmembers hzero hend
    exact ⟨.tuple vs, by rw [decode, decodeFields_eq, hvs]; rfl, hvszero⟩
  | mapping key value =>
    simp [Ty.mappingFree, Ty.everywhere, Ty.isMapping] at hfree

/-! ## How far decoding has come -/

/-- Where a value of the type is decoded its reach is addressable. -/
def Reaches (src : Source) (t : Ty) : Prop :=
  ∀ {offset : Nat} {v : Value}, offset ≤ Size.limit → decode src t offset = .ok v →
    offset + t.reach ≤ Size.limit

theorem reaches_members (h : ∀ t ∈ members, Reaches src t) (hoffset : offset ≤ Size.limit)
    {items : List Value} (hitems : decodeMembers src members offset = .ok items) :
    offset + Ty.membersSpan members ≤ Size.limit := by
  induction members generalizing offset items with
  | nil => exact hoffset
  | cons t ts ih =>
    rw [List.forall_mem_cons] at h
    obtain ⟨v, vs, hv, hnext, hvs, -⟩ := decodeMembers_cons_eq_ok.1 hitems
    have hreach := h.1 hoffset hv
    have hrest := ih h.2 hnext hvs
    have hsize : t.layoutSize = t.span := Ty.layoutSize_eq_span_of_reach (by omega)
    rw [Ty.membersSpan]
    omega

theorem advanced_of_counted {ty : Ty} {bound : Nat} {body : Nat → Nat → Except Fault Value}
    {v : Value} (h : (lengthAt ty bound src offset >>= fun n =>
      advance offset 32 >>= fun start => body n start) = .ok v) : offset + 32 ≤ Size.limit := by
  obtain ⟨n, -, h⟩ := bind_eq_ok.1 h
  obtain ⟨start, hstart, -⟩ := bind_eq_ok.1 h
  exact (advance_eq_ok.1 hstart).1

theorem reaches (src : Source) (t : Ty) : Reaches src t := by
  induction t using Ty.memberInduction with
  | uint | int | bool | address | fixedBytes | mapping =>
    intro offset v hoffset _
    exact hoffset
  | bytes | string | dynArray =>
    intro offset v _ hv
    rw [decode] at hv
    exact advanced_of_counted hv
  | array elem n ih =>
    intro offset v hoffset hv
    rw [decode, ← decodeMembers_replicate] at hv
    obtain ⟨items, hitems, -⟩ := bind_eq_ok.1 hv
    rw [Ty.reach, Ty.span, ← Ty.membersSpan_replicate]
    refine reaches_members (fun u hu => ?_) hoffset hitems
    rw [List.eq_of_mem_replicate hu]
    exact ih
  | tuple members ih =>
    intro offset v hoffset hv
    rw [decode] at hv
    obtain ⟨items, hitems, -⟩ := bind_eq_ok.1 hv
    rw [Ty.reach, Ty.span]
    exact reaches_members ih hoffset hitems
  | struct name fields ih =>
    intro offset v hoffset hv
    rw [decode, decodeFields_eq] at hv
    obtain ⟨items, hitems, -⟩ := bind_eq_ok.1 hv
    rw [Ty.reach, Ty.span, Ty.fieldsSpan_eq]
    exact reaches_members ih hoffset hitems

/-! ## Zeros that were there -/

def FromZeros (src : Source) (t : Ty) : Prop :=
  ∀ {offset : Nat} {v : Value}, offset ≤ Size.limit → decode src t offset = .ok v →
    v.isZero = true → src.ZeroOn offset t.layoutSize

theorem fromZeros_word (hsrc : src.Seamless) (hword : t.isWord = true)
    (hsize : t.layoutSize = 32) : FromZeros src t := by
  intro offset v _ hv hzero
  obtain ⟨word, hread, hlaid⟩ := laid_of_decode_word hword hv
  have hbytes := laid_word_zero hword hlaid hzero
  rw [← Word.toBytes_zero] at hbytes
  rw [Word.toBytes_inj hbytes] at hread
  rw [hsize]
  exact (wordAt_eq_zero hsrc).1 hread

theorem fromZeros_members (h : ∀ t ∈ members, FromZeros src t) (hoffset : offset ≤ Size.limit)
    {items : List Value} (hitems : decodeMembers src members offset = .ok items)
    (hzero : Value.allZero items = true) : src.ZeroOn offset (Ty.membersSpan members) := by
  induction members generalizing offset items with
  | nil =>
    intro i hi
    exact absurd hi (Nat.not_lt_zero i)
  | cons t ts ih =>
    rw [List.forall_mem_cons] at h
    obtain ⟨v, vs, hv, hnext, hvs, rfl⟩ := decodeMembers_cons_eq_ok.1 hitems
    rw [Value.allZero, Bool.and_eq_true] at hzero
    have hreach := reaches src t hoffset hv
    have hsize : t.layoutSize = t.span := Ty.layoutSize_eq_span_of_reach (by omega)
    have hhere := h.1 hoffset hv hzero.1
    rw [hsize] at hhere hvs hnext
    exact Source.zeroOn_add.2 ⟨hhere, ih h.2 hnext hvs hzero.2⟩

theorem fromZeros (hsrc : src.Seamless) (hstatic : t.static = true) : FromZeros src t := by
  induction t using Ty.memberInduction with
  | uint | int | bool | address | fixedBytes => exact fromZeros_word hsrc rfl rfl
  | bytes | string | dynArray => simp [Ty.static, Ty.everywhere] at hstatic
  | array elem n ih =>
    intro offset v hoffset hv hzero
    simp only [Ty.static, Ty.everywhere, Bool.and_eq_true] at hstatic
    have hend := reaches src (.array elem n) hoffset hv
    rw [Ty.reach] at hend
    rw [Ty.layoutSize_eq_span (by omega), Ty.span, ← Ty.membersSpan_replicate]
    rw [decode, ← decodeMembers_replicate] at hv
    obtain ⟨items, hitems, hvalue⟩ := bind_eq_ok.1 hv
    cases hvalue
    refine fromZeros_members (fun u hu => ?_) hoffset hitems hzero
    rw [List.eq_of_mem_replicate hu]
    exact ih hstatic.2
  | tuple members ih =>
    intro offset v hoffset hv hzero
    have hend := reaches src (.tuple members) hoffset hv
    rw [Ty.reach] at hend
    rw [Ty.layoutSize_eq_span (by omega), Ty.span]
    rw [decode] at hv
    obtain ⟨items, hitems, hvalue⟩ := bind_eq_ok.1 hv
    cases hvalue
    exact fromZeros_members (fun u hu => ih u hu ((Ty.everywhere_tuple hstatic).2 u hu)) hoffset
      hitems hzero
  | struct name fields ih =>
    intro offset v hoffset hv hzero
    have hend := reaches src (.struct name fields) hoffset hv
    rw [Ty.reach] at hend
    rw [Ty.layoutSize_eq_span (by omega), Ty.span, Ty.fieldsSpan_eq]
    rw [decode, decodeFields_eq] at hv
    obtain ⟨items, hitems, hvalue⟩ := bind_eq_ok.1 hv
    cases hvalue
    exact fromZeros_members (fun u hu => ih u hu ((Ty.everywhere_struct hstatic).2 u hu)) hoffset
      hitems hzero
  | mapping key value =>
    intro offset v _ hv
    cases hv

theorem exists_zero_iff (hsrc : src.Seamless) (hfree : t.mappingFree = true)
    (hoffset : offset ≤ Size.limit) (hzero : src.ZeroOn offset t.layoutSize) :
    (∃ v, decode src t offset = .ok v ∧ v.isZero = true) ↔ offset + t.reach ≤ Size.limit := by
  constructor
  · rintro ⟨v, hv, -⟩
    exact reaches src t hoffset hv
  · exact zeroDecodes hsrc hfree hzero

end Layout

end EvmInspect
