import EvmInspect.Layout.Decode
import EvmInspect.Proofs.Layout.Image
import EvmInspect.Proofs.Ty.Legal
/-!
# Decoding native layouts

A legal value is decoded from any source that holds an image of it, from the offset where the image
stands.  Arrays are decoded as the tuples of their elements, so that there is one argument for all
sequences: each member stands as far behind the one before it as that one takes room.
-/

namespace EvmInspect

namespace Layout

/-! ## What a source holds -/

namespace Source

/-- The source gives the bytes of the image, by any range of them, and their offsets are
addressable. -/
def Holds (src : Source) (offset : Nat) (image : List UInt8) : Prop :=
  offset + image.length ≤ Size.limit ∧ ∀ start n, start + n ≤ image.length →
    src (offset + start) n = .ok ((image.drop start).take n)

theorem Holds.append {src : Source} {offset : Nat} {front back : List UInt8}
    (h : src.Holds offset (front ++ back)) :
    src.Holds offset front ∧ src.Holds (offset + front.length) back := by
  obtain ⟨hlimit, hread⟩ := h
  rw [List.length_append] at hlimit hread
  refine ⟨⟨by omega, fun start n hn => ?_⟩, ⟨by omega, fun start n hn => ?_⟩⟩
  · rw [hread start n (by omega), List.drop_append_of_le_length (by omega),
      List.take_append_of_le_length (by rw [List.length_drop]; omega)]
  · rw [Nat.add_assoc, hread (front.length + start) n (by omega), List.drop_append,
      List.drop_eq_nil_of_le (by omega), List.nil_append, Nat.add_sub_cancel_left]

theorem Holds.read {src : Source} {offset : Nat} {data : List UInt8} (h : src.Holds offset data) :
    src offset data.length = .ok data := by
  have hall := h.2 0 data.length (by omega)
  rw [Nat.add_zero, List.drop_zero, List.take_length] at hall
  exact hall

theorem holds_ofBytes {buffer image : List UInt8} {offset : Nat}
    (hbuffer : buffer.length ≤ Size.limit) (hoffset : offset ≤ buffer.length)
    (h : image <+: buffer.drop offset) : (ofBytes buffer).Holds offset image := by
  have hlen := h.length_le
  rw [List.length_drop] at hlen
  refine ⟨by omega, fun start n hn => ?_⟩
  obtain ⟨rest, hrest⟩ := h
  rw [ofBytes, if_pos (by omega), ← List.drop_drop, ← hrest,
    List.drop_append_of_le_length (by omega),
    List.take_append_of_le_length (by rw [List.length_drop]; omega)]

end Source

variable {src : Source} {offset : Nat}

/-! ## Reading words and lengths -/

theorem wordAt_of_holds {word : Word} (h : src.Holds offset word.toBytes) :
    wordAt src offset = .ok word := by
  have hread := h.read
  rw [Word.length_toBytes] at hread
  rw [wordAt, hread, Except.map, Word.ofBytes_toBytes]

theorem wordAt_ofBytes_eq_ok {data : List UInt8} {word : Word} :
    wordAt (.ofBytes data) offset = .ok word ↔
      offset + 32 ≤ data.length ∧ word.toBytes = (data.drop offset).take 32 := by
  unfold wordAt Source.ofBytes
  by_cases hlen : offset + 32 ≤ data.length
  · have hbytes : ((data.drop offset).take 32).length = 32 := by
      rw [List.length_take, List.length_drop]
      omega
    simp only [hlen, if_true, Except.map, Except.ok.injEq, true_and]
    constructor
    · rintro rfl
      exact Word.toBytes_ofBytes hbytes
    · intro h
      rw [← h, Word.ofBytes_toBytes]
  · simp [hlen, Except.map]

theorem checked_eq_ok {t : Ty} {check : Except Ty.Illegal Unit} {u v : Value} :
    checked t check u = .ok v ↔ check = .ok () ∧ v = u := by
  unfold checked
  cases check <;> simp [eq_comm]

theorem toNat_number {n : Nat} (hn : n ≤ Size.limit) : (BitVec.ofNat 256 n).toNat = n := by
  rw [BitVec.toNat_ofNat, Nat.mod_eq_of_lt (Nat.lt_of_le_of_lt hn (by decide))]

theorem wordAt_number {n : Nat} (hn : n ≤ Size.limit) (h : src.Holds offset (bytesOfNat 32 n)) :
    wordAt src offset = .ok (BitVec.ofNat 256 n) := by
  apply wordAt_of_holds
  rw [Word.toBytes, toNat_number hn]
  exact h

theorem advance_of_le {distance : Nat} (h : offset + distance ≤ Size.limit) :
    advance offset distance = .ok (offset + distance) := by
  rw [advance, Size.add?, if_pos h]

theorem advance_eq_ok {distance n : Nat} :
    advance offset distance = .ok n ↔ offset + distance ≤ Size.limit ∧ n = offset + distance := by
  unfold advance Size.add?
  by_cases h : offset + distance ≤ Size.limit <;> simp [h, eq_comm]

theorem counted_of_holds {n bound : Nat} {data filler : List UInt8} (ty : Ty) (hn : n ≤ bound)
    (hbound : bound ≤ Size.limit)
    (h : src.Holds offset (bytesOfNat 32 n ++ (data ++ filler))) :
    lengthAt ty bound src offset = .ok n ∧ advance offset 32 = .ok (offset + 32) ∧
      src.Holds (offset + 32) data := by
  obtain ⟨hnumber, hrest⟩ := h.append
  rw [length_bytesOfNat] at hrest
  have hlimit := hrest.1
  have hn' : n ≤ Size.limit := Nat.le_trans hn hbound
  refine ⟨?_, advance_of_le (by omega), hrest.append.1⟩
  unfold lengthAt
  rw [wordAt_number hn' hnumber]
  simp only [bind, Except.bind, toNat_number hn', hn', hn, and_self, if_true, pure, Except.pure]

/-! ## Sequences -/

theorem decodeMembers_cons_eq_ok {t : Ty} {members : List Ty}
    {items : List Value} :
    decodeMembers src (t :: members) offset = .ok items ↔
      ∃ v vs, decode src t offset = .ok v ∧ offset + t.layoutSize ≤ Size.limit ∧
        decodeMembers src members (offset + t.layoutSize) = .ok vs ∧ items = v :: vs := by
  simp only [decodeMembers, bind_eq_ok, pure_eq_ok, advance_eq_ok]
  constructor
  · rintro ⟨v, hv, _, ⟨hnext, rfl⟩, vs, hvs, rfl⟩
    exact ⟨v, vs, hv, hnext, hvs, rfl⟩
  · rintro ⟨v, vs, hv, hnext, hvs, rfl⟩
    exact ⟨v, hv, _, ⟨hnext, rfl⟩, vs, hvs, rfl⟩

theorem decodeMembers_replicate (src : Source) (t : Ty) (n offset : Nat) :
    decodeMembers src (List.replicate n t) offset =
      decodeCopies (decode src t) t.layoutSize n offset := by
  induction n generalizing offset with
  | zero => rfl
  | succ n ih =>
    rw [List.replicate_succ, decodeMembers, decodeCopies]
    simp only [ih]

theorem decodeFields_eq (src : Source) (fields : List (String × Ty)) (offset : Nat) :
    decodeFields src fields offset = decodeMembers src (fields.map Prod.snd) offset := by
  induction fields generalizing offset with
  | nil => rfl
  | cons f fs ih =>
    rw [decodeFields, List.map_cons, decodeMembers]
    simp only [ih]

/-- The value is decoded from wherever the source holds an image of it. -/
def Decodes (src : Source) (t : Ty) (v : Value) : Prop :=
  ∀ (image : List UInt8) (offset : Nat), Laid t v image → src.Holds offset image →
    decode src t offset = .ok v

theorem decodeMembers_of_laid {members : List Ty} {items : List Value}
    (h : List.Forall₂ (Decodes src) members items) {image : List UInt8}
    (hlaid : LaidMembers members items image) (hholds : src.Holds offset image) :
    decodeMembers src members offset = .ok items := by
  induction h generalizing image offset with
  | nil => rfl
  | @cons t v ts vs hv _ ih =>
    obtain ⟨first, rest, rfl, hfirst, hrest⟩ := hlaid
    obtain ⟨hhere, hthere⟩ := hholds.append
    have hlimit := hhere.1
    have hroom := length_of_laid hfirst
    have hsize : t.layoutSize = first.length := by
      rw [Ty.layoutSize_eq_room (by omega), hroom]
    rw [decodeMembers, hv first offset hfirst hhere, hsize]
    simp only [bind, Except.bind, advance_of_le hlimit, ih hrest hthere, pure, Except.pure]

/-! ## Values -/

theorem decodes_of_legal {t : Ty} {v : Value} (h : t.Legal v) (hbound : t.addressable = true) :
    Decodes src t v := by
  induction h with
  | uint hword =>
    intro image offset hlaid hholds
    simp only [Laid] at hlaid
    rw [hlaid] at hholds
    rw [decode, wordAt_of_holds hholds]
    simp only [bind, Except.bind, Ty.checkUnsigned, hword, if_true, checked]
  | int hword =>
    intro image offset hlaid hholds
    simp only [Laid] at hlaid
    rw [hlaid] at hholds
    rw [decode, wordAt_of_holds hholds]
    simp only [bind, Except.bind, Ty.checkSigned, hword, if_true, checked]
  | bool b =>
    intro image offset hlaid hholds
    simp only [Laid] at hlaid
    rw [hlaid] at hholds
    rw [decode, wordAt_number (by cases b <;> decide) hholds]
    cases b <;> rfl
  | address a =>
    intro image offset hlaid hholds
    simp only [Laid] at hlaid
    rw [hlaid, ← Address.toBytes_toWord] at hholds
    have ha : a.toNat >>> 160 = 0 := by
      rw [Nat.shiftRight_eq_div_pow, Nat.div_eq_of_lt a.isLt]
    rw [decode, wordAt_of_holds hholds]
    simp only [bind, Except.bind, Address.toNat_toWord, ha, if_true, pure, Except.pure,
      BitVec.ofNat_toNat, BitVec.setWidth_eq]
  | fixedBytes hword =>
    intro image offset hlaid hholds
    simp only [Laid] at hlaid
    rw [hlaid] at hholds
    rw [decode, wordAt_of_holds hholds]
    simp only [bind, Except.bind, hword, if_true, pure, Except.pure]
  | @bytes bound data hlen =>
    intro image offset hlaid hholds
    simp only [Laid] at hlaid
    obtain ⟨filler, himage, -⟩ := hlaid
    rw [himage] at hholds
    simp only [Ty.addressable, Ty.everywhere, Ty.hasBound, decide_eq_true_eq] at hbound
    obtain ⟨hcount, hadvance, hdata⟩ := counted_of_holds (.bytes bound) hlen hbound hholds
    rw [decode, hcount]
    simp only [bind, Except.bind, hadvance, hdata.read, pure, Except.pure]
  | @string bound s hlen =>
    intro image offset hlaid hholds
    simp only [Laid] at hlaid
    obtain ⟨filler, himage, -⟩ := hlaid
    rw [himage] at hholds
    simp only [Ty.addressable, Ty.everywhere, Ty.hasBound, decide_eq_true_eq] at hbound
    obtain ⟨hcount, hadvance, hdata⟩ := counted_of_holds (.string bound) hlen hbound hholds
    have hread := hdata.read
    rw [Text.length_toUtf8] at hread
    rw [decode, hcount]
    simp only [bind, Except.bind, hadvance, hread, Text.ofUtf8?_toUtf8, pure, Except.pure]
  | @array elem items hitems ih =>
    intro image offset hlaid hholds
    simp only [Laid, true_and] at hlaid
    rw [← laidMembers_replicate] at hlaid
    simp only [Ty.addressable, Ty.everywhere, Bool.and_eq_true] at hbound
    have helems : ∀ v ∈ items, Decodes src elem v := fun v hv => ih v hv hbound.2
    have hdecode := decodeMembers_of_laid (forall₂_replicate helems) hlaid hholds
    rw [decodeMembers_replicate] at hdecode
    rw [decode, hdecode]
    rfl
  | @dynArray elem bound items hlen hitems ih =>
    intro image offset hlaid hholds
    simp only [Laid] at hlaid
    obtain ⟨body, filler, himage, hbody, -⟩ := hlaid
    rw [himage] at hholds
    rw [← laidMembers_replicate] at hbody
    simp only [Ty.addressable, Ty.everywhere, Ty.hasBound, Bool.and_eq_true,
      decide_eq_true_eq] at hbound
    have helems : ∀ v ∈ items, Decodes src elem v := fun v hv => ih v hv hbound.2
    obtain ⟨hcount, hadvance, hdata⟩ :=
      counted_of_holds (.dynArray elem bound) hlen hbound.1 hholds
    have hdecode := decodeMembers_of_laid (forall₂_replicate helems) hbody hdata
    rw [decodeMembers_replicate] at hdecode
    rw [decode, hcount]
    simp only [bind, Except.bind, hadvance, hdecode, pure, Except.pure]
  | @tuple members items hlen hitems ih =>
    intro image offset hlaid hholds
    simp only [Laid] at hlaid
    obtain ⟨-, hbounds⟩ := Ty.everywhere_tuple hbound
    have hmembers := forall₂_of_zip hlen fun t v hmem =>
      ih t v hmem (hbounds t (List.of_mem_zip hmem).1)
    rw [decode, decodeMembers_of_laid hmembers hlaid hholds]
    rfl
  | @struct name fields items hlen hitems ih =>
    intro image offset hlaid hholds
    simp only [Laid] at hlaid
    rw [laidFields_iff] at hlaid
    obtain ⟨-, hbounds⟩ := Ty.everywhere_struct hbound
    have hmembers := forall₂_of_zip hlen fun t v hmem =>
      ih t v hmem (hbounds t (List.of_mem_zip hmem).1)
    rw [decode, decodeFields_eq, decodeMembers_of_laid hmembers hlaid hholds]
    rfl

theorem laid_of_decode_word {t : Ty} {v : Value} (hword : t.isWord = true)
    (h : decode src t offset = .ok v) :
    ∃ word, wordAt src offset = .ok word ∧ Laid t v word.toBytes := by
  cases t with
  | uint bits | int bits =>
    simp only [decode, bind_eq_ok, checked_eq_ok] at h
    obtain ⟨word, hread, -, rfl⟩ := h
    exact ⟨word, hread, rfl⟩
  | bool =>
    simp only [decode, bind_eq_ok, ite_throw_eq_ok] at h
    obtain ⟨word, hread, hone, rfl⟩ := h
    refine ⟨word, hread, ?_⟩
    rw [Laid, Word.toNat_bit hone]
    rfl
  | address =>
    simp only [decode, bind_eq_ok, ite_throw_eq_ok] at h
    obtain ⟨word, hread, hclean, rfl⟩ := h
    exact ⟨word, hread, by rw [Laid, ← Address.toBytes_toWord, Address.toWord_ofNat hclean]⟩
  | fixedBytes size =>
    simp only [decode, bind_eq_ok, ite_throw_eq_ok] at h
    obtain ⟨word, hread, -, rfl⟩ := h
    exact ⟨word, hread, rfl⟩
  | bytes | string | array | dynArray | tuple | struct | mapping => simp [Ty.isWord] at hword

theorem laid_word_unique {t : Ty} {v : Value} {image other : List UInt8} (hword : t.isWord = true)
    (h : Laid t v image) (h' : Laid t v other) : image = other := by
  cases t <;> simp only [Ty.isWord, Bool.false_eq_true] at hword <;>
    cases v <;> simp only [Laid] at h h' <;> rw [h, h']

/-- A value that its type's call type matches and that is legal is decoded from any addressable
buffer with an image of it, from the offset where the image stands. -/
theorem decode_of_laid {t : Ty} {a : AbiType} {v : Value} {buffer image : List UInt8} {offset : Nat}
    (hbound : t.addressable = true) (habi : t.abiType? = some a) (hmatch : a.matchesValue v = true)
    (hcheck : t.check v = .ok ()) (hlaid : Laid t v image) (hbuffer : buffer.length ≤ Size.limit)
    (hoffset : offset ≤ buffer.length) (himage : image <+: buffer.drop offset) :
    decode (.ofBytes buffer) t offset = .ok v :=
  decodes_of_legal (t.decided a v habi hmatch hcheck) hbound image offset hlaid
    (Source.holds_ofBytes hbuffer hoffset himage)

/-- Behind two other bytes and with filler behind the text, the member behind the text is found. -/
theorem decode_of_laid_tuple :
    decode
        (.ofBytes ([1, 2] ++ (bytesOfNat 32 2 ++ ([104, 105] ++ List.replicate 30 255) ++
          bytesOfNat 32 7)))
        (.tuple [.string 5, .uint 8]) 2 = .ok (.tuple [.string "hi", .uint 7 8]) :=
  decode_of_laid (by decide) rfl (by decide) (by decide)
    ⟨_, _, rfl, ⟨List.replicate 30 255, rfl, by decide +kernel⟩, bytesOfNat 32 7, [], rfl,
      rfl, rfl⟩
    (by decide +kernel) (by decide +kernel) (List.prefix_refl _)

end Layout

end EvmInspect
