import EvmInspect.Abi.Codec
import EvmInspect.Proofs.Abi.RoundTrip
import EvmInspect.Proofs.Address
import EvmInspect.Proofs.Text.Ending
import EvmInspect.Storage.Reading
/-!
# Rendered values are unambiguous

Legal values of one declared type that look alike are the same.  Renderings are taken apart from
their ends, so that nothing which a struct or its members may be called stands in the way.
-/

namespace EvmInspect

open Text

/-! ## Renderings without brackets -/

namespace Text

theorem unmarked_nat (n : Nat) : Unmarked (toString n).toList := by
  refine unmarked_of_isAlphanum ?_ (isAlphanum_nat n)
  rw [toList_nat]
  exact Nat.toDigits_ne_nil

theorem nat_inj {m n : Nat} (h : toString m = toString n) : m = n := by
  have hdigits := congrArg String.toList h
  rw [toList_nat, toList_nat] at hdigits
  rw [← foldl_toDigits m, hdigits, foldl_toDigits]

theorem minus_ne_nat (s : String) (n : Nat) : "-" ++ s ≠ toString n := by
  intro h
  have hletters := congrArg String.toList h
  rw [toList_nat, String.toList_append] at hletters
  have hminus : '-'.isDigit = true := isDigit_toDigits n '-' (hletters ▸ by simp)
  exact absurd hminus (by decide)

theorem toString_negSucc (n : Nat) : toString (Int.negSucc n) = "-" ++ toString (n + 1) := by
  rfl

theorem unmarked_int (n : Int) : Unmarked (toString n).toList := by
  cases n with
  | ofNat n => exact unmarked_nat n
  | negSucc n =>
    rw [toString_negSucc, String.toList_append]
    exact Unmarked.append (by decide) (unmarked_nat (n + 1))

theorem int_inj {m n : Int} (h : toString m = toString n) : m = n := by
  cases m with
  | ofNat m =>
    cases n with
    | ofNat n => exact congrArg Int.ofNat (nat_inj h)
    | negSucc n => exact absurd h.symm (minus_ne_nat _ m)
  | negSucc m =>
    cases n with
    | ofNat n => exact absurd h (minus_ne_nat _ n)
    | negSucc n =>
      rw [toString_negSucc, toString_negSucc, String.append_right_inj] at h
      rw [Nat.succ.inj (nat_inj h)]

theorem unmarked_hex (bytes : List UInt8) : Unmarked (Hex.encode bytes).toList := by
  refine unmarked_of_isAlphanum ?_ (Hex.isAlphanum_encode bytes)
  rw [Hex.encode, String.toList_ofList]
  exact List.cons_ne_nil _ _

theorem unmarked_checksum (a : Address) : Unmarked a.checksum.toList := by
  refine unmarked_of_isAlphanum ?_ a.isAlphanum_checksum
  rw [Address.toList_checksum]
  exact List.cons_ne_nil _ _

theorem hex_inj {bytes bytes' : List UInt8} (h : Hex.encode bytes = Hex.encode bytes') :
    bytes = bytes' := by
  have hdecoded := congrArg Hex.decode h
  rwa [Hex.decode_encode_bytes, Hex.decode_encode_bytes, Option.some.injEq] at hdecoded

end Text

namespace Ty

variable {elem t : Ty} {members : List Ty} {name : String} {fields : List (String × Ty)}
  {labelled : List (String × Ty)} {v w : Value} {items others : List Value}
  {bits size n bound : Nat} {word word' : Word} {left left' : List Char}

/-! ## Renderings of legal values -/

/-- Rendering of a value of the type. -/
def shown (t : Ty) (v : Value) : String := (Declared.mk v t).text

def shownMembers (labelled : List (String × Ty)) (items : List Value) : List String :=
  List.zipWith (fun m v => m.1 ++ m.2.shown v) labelled items

section WithoutParts

attribute [local simp] Declared.text Declared.render Value.render Rendering.typed

theorem shown_uint : (Ty.uint bits).shown (.uint word n) = toString word.toNat := by
  simp [shown]

theorem shown_int : (Ty.int bits).shown (.int word n) = toString word.toInt := by
  simp [shown]

theorem shown_bool (b : Bool) : Ty.bool.shown (.bool b) = if b then "true" else "false" := by
  simp [shown]

theorem shown_address (a : Address) : Ty.address.shown (.address a) = a.checksum := by
  simp [shown, Rendering.address]

theorem shown_fixedBytes :
    (Ty.fixedBytes bits).shown (.fixedBytes word size) = Hex.encode (word.toBytes.take size) := by
  simp [shown, Value.fixedBytesData]

theorem shown_bytes (data : List UInt8) :
    (Ty.bytes bound).shown (.bytes data) = Hex.encode data := by
  simp [shown, Rendering.bytes]

theorem shown_string (s : String) : (Ty.string bound).shown (.string s) = quote s := by
  simp [shown, Rendering.string]

end WithoutParts

theorem renderAll_eq (items : List Value) :
    Value.renderAll {} items (some elem) = items.map elem.shown := by
  induction items with
  | nil => rfl
  | cons v vs ih => rw [Value.renderAll, ih, List.map_cons]; rfl

theorem renderMembers_eq (members : List Ty) (items : List Value) :
    Value.renderMembers {} items (members.map some) = List.zipWith shown members items := by
  induction members generalizing items with
  | nil => cases items <;> rfl
  | cons t ts ih =>
    cases items with
    | nil => rfl
    | cons v vs => rw [List.map_cons, Value.renderMembers, ih]; rfl

theorem toList_array (texts : List String) :
    (Rendering.array {} texts).toList = '[' :: (listed texts ++ [']']) := by
  simp [Rendering.array, listed]

theorem toList_tuple (texts : List String) : (Rendering.tuple texts).toList =
    '(' :: (listed texts ++ if texts.length = 1 then [',', ')'] else [')']) := by
  by_cases h : texts.length = 1 <;> simp [Rendering.tuple, listed, h]

theorem toList_struct (name : String) (texts : List (String × String)) :
    (Rendering.struct name texts).toList =
      name.toList ++ '(' :: (listed (texts.map fun f => f.1 ++ ": " ++ f.2) ++ [')']) := by
  simp [Rendering.struct, listed, toString]

theorem toList_shown_array : ((Ty.array elem n).shown (.fixedArray items)).toList =
    '[' :: (listed (items.map elem.shown) ++ [']']) := by
  rw [shown, Declared.text, Declared.render, Value.render, Option.bind_some, elem?, renderAll_eq,
    toList_array]

theorem toList_shown_dynArray : ((Ty.dynArray elem bound).shown (.array items)).toList =
    '[' :: (listed (items.map elem.shown) ++ [']']) := by
  rw [shown, Declared.text, Declared.render, Value.render, Option.bind_some, elem?, renderAll_eq,
    toList_array]

theorem toList_shown_tuple (hlen : members.length = items.length) :
    ((Ty.tuple members).shown (.tuple items)).toList =
      '(' :: (listed (shownMembers (members.map fun t => ("", t)) items) ++
        if items.length = 1 then [',', ')'] else [')']) := by
  have hmembers : shownMembers (members.map fun t => ("", t)) items =
      List.zipWith shown members items := by
    rw [shownMembers, List.zipWith_map_left]
    simp
  rw [shown, Declared.text, Declared.render, Value.render, memberTypes, if_pos hlen,
    renderMembers_eq, hmembers]
  simp only [structNames?, toList_tuple, List.length_zipWith, hlen, Nat.min_self]

theorem shownMembers_fields (fields : List (String × Ty)) (items : List Value) :
    shownMembers (fields.map fun f => (f.1 ++ ": ", f.2)) items =
      ((fields.map Prod.fst).zip (List.zipWith shown (fields.map Prod.snd) items)).map
        fun f => f.1 ++ ": " ++ f.2 := by
  induction fields generalizing items with
  | nil => rfl
  | cons f fs ih =>
    cases items with
    | nil => rfl
    | cons v vs => exact congrArg _ (ih vs)

theorem toList_shown_struct (hlen : fields.length = items.length) :
    ((Ty.struct name fields).shown (.tuple items)).toList =
      name.toList ++ '(' ::
        (listed (shownMembers (fields.map fun f => (f.1 ++ ": ", f.2)) items) ++ [')']) := by
  have hmembers : fields.map (fun f => some f.2) = (fields.map Prod.snd).map some := by
    rw [List.map_map]
    rfl
  rw [shown, Declared.text, Declared.render, Value.render, memberTypes, if_pos hlen, hmembers,
    renderMembers_eq, structNames?, if_pos hlen, shownMembers_fields, ← toList_struct]

/-! ## Legal values and their parts -/

def LegalMembers (labelled : List (String × Ty)) (items : List Value) : Prop :=
  List.Forall₂ (fun m v => m.2.Legal v) labelled items

theorem Legal.items_array (h : (Ty.array elem n).Legal v) :
    ∃ items, v = .fixedArray items ∧ ∀ v ∈ items, elem.Legal v := by
  cases h with
  | array hitems => exact ⟨_, rfl, hitems⟩

theorem Legal.items_dynArray (h : (Ty.dynArray elem bound).Legal v) :
    ∃ items, v = .array items ∧ ∀ v ∈ items, elem.Legal v := by
  cases h with
  | dynArray _ hitems => exact ⟨_, rfl, hitems⟩

theorem Legal.items_tuple (h : (Ty.tuple members).Legal v) :
    ∃ items, v = .tuple items ∧ members.length = items.length ∧
      LegalMembers (members.map fun t => ("", t)) items := by
  cases h with
  | tuple hlen hitems =>
    exact ⟨_, rfl, hlen, List.forall₂_map_left_iff.2 (forall₂_of_zip hlen hitems)⟩

theorem Legal.items_struct (h : (Ty.struct name fields).Legal v) :
    ∃ items, v = .tuple items ∧ fields.length = items.length ∧
      LegalMembers (fields.map fun f => (f.1 ++ ": ", f.2)) items := by
  cases h with
  | struct hlen hitems =>
    have hlegal := List.forall₂_map_left_iff.1 (forall₂_of_zip hlen hitems)
    rw [List.length_map] at hlen
    exact ⟨_, rfl, hlen, List.forall₂_map_left_iff.2 hlegal⟩

def isFlat : Ty → Bool
  | .bytes _ => true
  | t => t.isWord

theorem unmarked_shown (hflat : t.isFlat = true) (h : t.Legal v) : Unmarked (t.shown v).toList := by
  cases h with
  | uint => exact shown_uint ▸ unmarked_nat _
  | int => exact shown_int ▸ unmarked_int _
  | bool b =>
    rw [shown_bool]
    cases b <;> decide
  | address a => exact shown_address a ▸ unmarked_checksum a
  | fixedBytes => exact shown_fixedBytes ▸ unmarked_hex _
  | bytes => exact shown_bytes _ ▸ unmarked_hex _
  | string | array | dynArray | tuple | struct => simp [isFlat, isWord] at hflat

theorem closes_shown (h : t.Legal v) : Closes (t.shown v).toList := by
  by_cases hflat : t.isFlat = true
  · exact (unmarked_shown hflat h).closes
  cases h with
  | uint | int | bool | address | fixedBytes | bytes => exact absurd rfl hflat
  | string => exact shown_string _ ▸ closes_quote _
  | array =>
    rw [toList_shown_array, ← List.cons_append]
    exact closes_concat (by decide) _
  | dynArray =>
    rw [toList_shown_dynArray, ← List.cons_append]
    exact closes_concat (by decide) _
  | tuple hlen =>
    rw [toList_shown_tuple hlen, ← List.cons_append]
    apply Closes.append
    split
    · exact closes_concat (a := [',']) (by decide)
    · exact closes_concat (a := []) (by decide)
  | struct hlen =>
    rw [List.length_map] at hlen
    rw [toList_shown_struct hlen, ← List.cons_append, ← List.append_assoc]
    exact closes_concat (by decide) _

theorem closes_members (h : LegalMembers labelled items) :
    ∀ s ∈ shownMembers labelled items, Closes s.toList := by
  induction h with
  | nil => simp [shownMembers]
  | cons hhead _ ih =>
    rw [shownMembers, List.zipWith_cons_cons, List.forall_mem_cons, String.toList_append]
    exact ⟨(closes_shown hhead).append _, ih⟩

/-! ## Renderings without parts -/

theorem eq_of_take (h : (word.toBytes.drop size).all (· == 0) = true)
    (h' : (word'.toBytes.drop size).all (· == 0) = true)
    (heq : word.toBytes.take size = word'.toBytes.take size) : word = word' := by
  have hzeros {w : Word} (h : (w.toBytes.drop size).all (· == 0) = true) :
      w.toBytes.drop size = List.replicate (32 - size) 0 := by
    rw [List.eq_replicate_iff, List.length_drop, Word.length_toBytes]
    exact ⟨rfl, fun b hb => beq_iff_eq.1 (List.all_eq_true.1 h b hb)⟩
  apply Word.toBytes_inj
  calc word.toBytes = word.toBytes.take size ++ word.toBytes.drop size :=
        (List.take_append_drop _ _).symm
    _ = word'.toBytes.take size ++ word'.toBytes.drop size := by rw [heq, hzeros h, hzeros h']
    _ = word'.toBytes := List.take_append_drop _ _

theorem eq_of_flat (hflat : t.isFlat = true) (hv : t.Legal v) (hw : t.Legal w)
    (h : t.shown v = t.shown w) : v = w := by
  cases hv with
  | uint =>
    cases hw
    rw [shown_uint, shown_uint] at h
    rw [BitVec.eq_of_toNat_eq (nat_inj h)]
  | int =>
    cases hw
    rw [shown_int, shown_int] at h
    rw [BitVec.eq_of_toInt_eq (int_inj h)]
  | bool b =>
    cases hw with
    | bool c =>
      rw [shown_bool, shown_bool] at h
      cases b <;> cases c <;> simp at h ⊢
  | address =>
    cases hw
    rw [shown_address, shown_address] at h
    rw [Address.checksum_inj h]
  | fixedBytes hword =>
    cases hw with
    | fixedBytes hword' =>
      rw [shown_fixedBytes, shown_fixedBytes] at h
      rw [eq_of_take hword hword' (hex_inj h)]
  | bytes =>
    cases hw
    rw [shown_bytes, shown_bytes] at h
    rw [hex_inj h]
  | string | array | dynArray | tuple | struct => simp [isFlat, isWord] at hflat

/-! ## Renderings at the end of a text -/

/-- Behind what parts may stand behind, the rendering says where it starts and what is rendered. -/
def Readable (t : Ty) : Prop :=
  ∀ v w, t.Legal v → t.Legal w → ∀ left left', Opens left → Opens left' →
    left ++ (t.shown v).toList = left' ++ (t.shown w).toList → left = left' ∧ v = w

theorem Readable.of_sameStart
    (hstart : ∀ v w, t.Legal v → t.Legal w → SameStart (t.shown v).toList (t.shown w).toList)
    (hinj : ∀ v w, t.Legal v → t.Legal w → t.shown v = t.shown w → v = w) : t.Readable := by
  intro v w hv hw left left' hleft hleft' h
  obtain rfl := hstart v w hv hw left left' hleft hleft' h
  rw [List.append_cancel_left_eq, String.toList_inj] at h
  exact ⟨rfl, hinj v w hv hw h⟩

theorem Readable.sameStart (h : t.Readable) (hv : t.Legal v) (hw : t.Legal w) :
    SameStart (t.shown v).toList (t.shown w).toList :=
  fun left left' hleft hleft' heq => (h v w hv hw left left' hleft hleft' heq).1

theorem Readable.eq (h : t.Readable) (hv : t.Legal v) (hw : t.Legal w)
    (heq : t.shown v = t.shown w) : v = w :=
  (h v w hv hw [] [] opens_nil opens_nil (congrArg String.toList heq)).2

/-! ### Elements -/

theorem Readable.eq_of_map (h : elem.Readable) (hitems : ∀ v ∈ items, elem.Legal v)
    (hothers : ∀ v ∈ others, elem.Legal v)
    (heq : items.map elem.shown = others.map elem.shown) : items = others := by
  induction items generalizing others with
  | nil => simpa using heq.symm
  | cons v vs ih =>
    cases others with
    | nil => simp at heq
    | cons w ws =>
      rw [List.forall_mem_cons] at hitems hothers
      rw [List.map_cons, List.map_cons, List.cons.injEq] at heq
      rw [h.eq hitems.1 hothers.1 heq.1, ih hitems.2 hothers.2 heq.2]

theorem Readable.elements (h : elem.Readable) (hitems : ∀ v ∈ items, elem.Legal v)
    (hothers : ∀ v ∈ others, elem.Legal v)
    (heq : left ++ '[' :: (listed (items.map elem.shown) ++ [']']) =
      left' ++ '[' :: (listed (others.map elem.shown) ++ [']'])) :
    left = left' ∧ items = others := by
  rw [← List.cons_append, ← List.cons_append, ← List.append_assoc, ← List.append_assoc,
    List.append_cancel_right_eq] at heq
  have hstart : ∀ p ∈ (items.map elem.shown).reverse.zip (others.map elem.shown).reverse,
      SameStart p.1.toList p.2.toList := by
    rintro ⟨a, b⟩ hmem
    obtain ⟨ha, hb⟩ := List.of_mem_zip hmem
    simp only [List.mem_reverse, List.mem_map] at ha hb
    obtain ⟨v, hv, rfl⟩ := ha
    obtain ⟨w, hw, rfl⟩ := hb
    exact h.sameStart (hitems v hv) (hothers w hw)
  obtain ⟨hleft, htexts⟩ := eq_of_listed (.inl rfl) hstart
    (List.forall_mem_map.2 fun v hv => closes_shown (hitems v hv))
    (List.forall_mem_map.2 fun v hv => closes_shown (hothers v hv)) heq
  exact ⟨hleft, h.eq_of_map hitems hothers htexts⟩

/-! ### Members -/

theorem sameStart_members (hlabels : ∀ m ∈ labelled, Opens m.1.toList)
    (hread : ∀ m ∈ labelled, m.2.Readable) (hitems : LegalMembers labelled items)
    (hothers : LegalMembers labelled others) :
    List.Forall₂ (fun a b => SameStart a.toList b.toList) (shownMembers labelled items)
      (shownMembers labelled others) := by
  induction hitems generalizing others with
  | nil =>
    cases hothers
    exact .nil
  | @cons m v ms vs hv _ ih =>
    obtain ⟨w, ws, hw, hws, rfl⟩ := List.forall₂_cons_left_iff.1 hothers
    rw [List.forall_mem_cons] at hlabels hread
    refine .cons ?_ (ih hlabels.2 hread.2 hws)
    rw [String.toList_append, String.toList_append]
    exact (hread.1.sameStart hv hw).labelled hlabels.1

theorem eq_of_shownMembers (hread : ∀ m ∈ labelled, m.2.Readable)
    (hitems : LegalMembers labelled items) (hothers : LegalMembers labelled others)
    (heq : shownMembers labelled items = shownMembers labelled others) : items = others := by
  induction hitems generalizing others with
  | nil =>
    cases hothers
    rfl
  | @cons m v ms vs hv _ ih =>
    obtain ⟨w, ws, hw, hws, rfl⟩ := List.forall₂_cons_left_iff.1 hothers
    rw [List.forall_mem_cons] at hread
    rw [shownMembers, shownMembers, List.zipWith_cons_cons, List.zipWith_cons_cons,
      List.cons.injEq, String.append_right_inj] at heq
    rw [hread.1.eq hv hw heq.1, ih hread.2 hws heq.2]

theorem eq_of_members (hlabels : ∀ m ∈ labelled, Opens m.1.toList)
    (hread : ∀ m ∈ labelled, m.2.Readable) (hitems : LegalMembers labelled items)
    (hothers : LegalMembers labelled others) {close : List Char}
    (heq : left ++ '(' :: (listed (shownMembers labelled items) ++ close) =
      left' ++ '(' :: (listed (shownMembers labelled others) ++ close)) :
    left = left' ∧ items = others := by
  rw [← List.cons_append, ← List.cons_append, ← List.append_assoc, ← List.append_assoc,
    List.append_cancel_right_eq] at heq
  have hboth := sameStart_members hlabels hread hitems hothers
  have hstart : ∀ p ∈ (shownMembers labelled items).reverse.zip
      (shownMembers labelled others).reverse, SameStart p.1.toList p.2.toList := by
    rintro ⟨a, b⟩ hmem
    exact List.forall₂_zip (List.forall₂_reverse_iff.2 hboth) hmem
  obtain ⟨hleft, htexts⟩ := eq_of_listed (.inr rfl) hstart (closes_members hitems)
    (closes_members hothers) heq
  exact ⟨hleft, eq_of_shownMembers hread hitems hothers htexts⟩

theorem opens_unlabelled (members : List Ty) :
    ∀ m ∈ members.map fun t => ("", t), Opens m.1.toList :=
  List.forall_mem_map.2 fun _ _ => opens_nil

theorem opens_fields (fields : List (String × Ty)) :
    ∀ m ∈ fields.map fun f => (f.1 ++ ": ", f.2), Opens m.1.toList := by
  refine List.forall_mem_map.2 fun f _ => ?_
  have hlabel : (f.1 ++ ": ").toList = (f.1.toList ++ [':']) ++ [' '] := by simp
  rw [hlabel]
  exact opens_concat (by decide) _

/-! ### All types -/

theorem readable (t : Ty) : t.Readable := by
  induction t using memberInduction with
  | uint | int | bool | address | fixedBytes | bytes =>
    refine .of_sameStart (fun v w hv hw => ?_) fun v w hv hw h => eq_of_flat rfl hv hw h
    exact (unmarked_shown rfl hv).sameStart (unmarked_shown rfl hw)
  | string bound =>
    refine .of_sameStart (fun v w hv hw => ?_) fun v w hv hw h => ?_
    · cases hv
      cases hw
      rw [shown_string, shown_string]
      exact sameStart_quote _ _
    · cases hv
      cases hw
      rw [shown_string, shown_string] at h
      rw [quote_inj h]
  | array elem n ih =>
    intro v w hv hw left left' _ _ h
    obtain ⟨items, rfl, hitems⟩ := hv.items_array
    obtain ⟨others, rfl, hothers⟩ := hw.items_array
    rw [toList_shown_array, toList_shown_array] at h
    obtain ⟨hleft, rfl⟩ := ih.elements hitems hothers h
    exact ⟨hleft, rfl⟩
  | dynArray elem bound ih =>
    intro v w hv hw left left' _ _ h
    obtain ⟨items, rfl, hitems⟩ := hv.items_dynArray
    obtain ⟨others, rfl, hothers⟩ := hw.items_dynArray
    rw [toList_shown_dynArray, toList_shown_dynArray] at h
    obtain ⟨hleft, rfl⟩ := ih.elements hitems hothers h
    exact ⟨hleft, rfl⟩
  | tuple members ih =>
    intro v w hv hw left left' _ _ h
    obtain ⟨items, rfl, hlen, hitems⟩ := hv.items_tuple
    obtain ⟨others, rfl, hlen', hothers⟩ := hw.items_tuple
    -- both end in the same bracket, since they have equally many members
    rw [toList_shown_tuple hlen, toList_shown_tuple hlen', ← hlen, ← hlen'] at h
    obtain ⟨hleft, rfl⟩ :=
      eq_of_members (opens_unlabelled members) (List.forall_mem_map.2 ih) hitems hothers h
    exact ⟨hleft, rfl⟩
  | struct name fields ih =>
    intro v w hv hw left left' _ _ h
    obtain ⟨items, rfl, hlen, hitems⟩ := hv.items_struct
    obtain ⟨others, rfl, hlen', hothers⟩ := hw.items_struct
    rw [toList_shown_struct hlen, toList_shown_struct hlen', ← List.append_assoc,
      ← List.append_assoc] at h
    have hread := List.forall_mem_map.1 ih
    obtain ⟨hname, rfl⟩ :=
      eq_of_members (opens_fields fields) (List.forall_mem_map.2 hread) hitems hothers h
    exact ⟨List.append_cancel_right hname, rfl⟩
  | mapping =>
    intro v w hv
    cases hv

end Ty

/-! ## Values that are encoded -/

namespace Declared

variable {t : Ty} {v w : Value} {data data' : List UInt8}

theorem legal_of_encode (h : Abi.encode [t] [v] = .ok data) : t.Legal v := by
  obtain ⟨abi, habi, hmatch, hcheck, -⟩ := Abi.encode_eq_ok h
  have hlegal := Ty.legal_of_forall₂ (fun t _ => t.decided) (Abi.abiTypes_eq_ok habi) hmatch hcheck
  exact (List.forall₂_cons.1 hlegal).1

/-- Two values that are encoded for one type are the same if they look alike, and so are the keys of
mappings that they are. -/
theorem text_unambiguous (hv : Abi.encode [t] [v] = .ok data)
    (hw : Abi.encode [t] [w] = .ok data') :
    ((Declared.mk v t).text = (Declared.mk w t).text ↔ v = w) ∧
      ((Key.value ⟨v, t⟩).text = (Key.value ⟨w, t⟩).text ↔
        Key.value ⟨v, t⟩ = Key.value ⟨w, t⟩) := by
  have hinj : (Declared.mk v t).text = (Declared.mk w t).text → v = w :=
    t.readable.eq (legal_of_encode hv) (legal_of_encode hw)
  refine ⟨⟨hinj, ?_⟩, ⟨fun h => ?_, ?_⟩⟩
  · rintro rfl
    rfl
  · rw [hinj h]
  · intro h
    rw [h]

/-- Two texts do not look like one text with a quote and a comma in it. -/
theorem text_unambiguous_quotes :
    Abi.encode [.struct "P" [("x", .dynArray (.string 8) 2)]]
        [.tuple [.array [.string "a", .string "b"]]] =
      .ok (Value.encodeAll [.tuple [.array [.string "a", .string "b"]]]) ∧
    Abi.encode [.struct "P" [("x", .dynArray (.string 8) 2)]]
        [.tuple [.array [.string "a\", \"b"]]] =
      .ok (Value.encodeAll [.tuple [.array [.string "a\", \"b"]]]) ∧
    (Declared.mk (.tuple [.array [.string "a", .string "b"]])
        (.struct "P" [("x", .dynArray (.string 8) 2)])).text ≠
      (Declared.mk (.tuple [.array [.string "a\", \"b"]])
        (.struct "P" [("x", .dynArray (.string 8) 2)])).text := by
  refine ⟨rfl, rfl, fun h => ?_⟩
  have heq := (text_unambiguous rfl rfl).1.1 h
  exact absurd heq (by decide)

end Declared

end EvmInspect
