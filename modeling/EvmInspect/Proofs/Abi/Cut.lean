import EvmInspect.Proofs.Abi.Canonical
import Mathlib.Data.List.Infix
/-!
# Cut payloads

What the strict check and the reader make of a payload, they make of it with anything behind it as
well.  Every region that they enter may grow at its end: offsets and lengths that lead inside it
still do, and the words, texts and elements that were found there are found again.  So a payload
that is cut short is refused, or decodes to what the whole payload decodes to.
-/

namespace EvmInspect.Abi

variable {α β γ δ ε : Type} {shorter region : List UInt8} {base head pos depth : Nat}
  {a : AbiType} {types : List AbiType}

/-! ## Runs that succeed together -/

/-- Where the first run succeeds, the second one does too, with a related result. -/
def Carries (R : α → β → Prop) (x : Except ε α) (y : Except ε β) : Prop :=
  ∀ r, x = .ok r → ∃ s, y = .ok s ∧ R r s

namespace Carries

variable {R : α → β → Prop} {S : γ → δ → Prop} {x : Except ε α} {y : Except ε β}

theorem refl (x : Except ε α) : Carries Eq x x := fun r h => ⟨r, h, rfl⟩

theorem of_ok {r : α} {s : β} (h : R r s) : Carries R (.ok r : Except ε α) (.ok s) := by
  intro r' h'
  cases h'
  exact ⟨s, rfl, h⟩

theorem eq_ok {y : Except ε α} (h : Carries Eq x y) {r : α} (hx : x = .ok r) : y = .ok r := by
  obtain ⟨s, hs, rfl⟩ := h r hx
  exact hs

theorem bind {f : α → Except ε γ} {g : β → Except ε δ} (h : Carries R x y)
    (hrest : ∀ r s, x = .ok r → R r s → Carries S (f r) (g s)) :
    Carries S (x >>= f) (y >>= g) := by
  intro t ht
  obtain ⟨r, hr, ht⟩ := bind_eq_ok.1 ht
  obtain ⟨s, hs, hrs⟩ := h r hr
  obtain ⟨u, hu, htu⟩ := hrest r s hr hrs t ht
  exact ⟨u, bind_eq_ok.2 ⟨s, hs, hu⟩, htu⟩

theorem bind_eq {f g : α → Except ε γ} {y : Except ε α} {T : γ → γ → Prop}
    (h : Carries Eq x y) (hrest : ∀ r, x = .ok r → Carries T (f r) (g r)) :
    Carries T (x >>= f) (y >>= g) := by
  refine h.bind fun r s hr hrs => ?_
  subst hrs
  exact hrest r hr

theorem require {c d : Bool} (fault fault' : Fault) (h : c = true → d = true) :
    Carries Eq (require c fault) (require d fault') := by
  intro u hu
  exact ⟨u, require_eq_ok.2 (h (require_eq_ok.1 hu)), rfl⟩

end Carries

/-- One region starts the other, and what goes with them, an offset or a depth, is the same. -/
def Inside (s t : List UInt8 × Nat) : Prop := s.1 <+: t.1 ∧ s.2 = t.2

/-! ## Words and numbers -/

theorem wordAt_carries (h : shorter <+: region) (pos base : Nat) :
    Carries Eq (wordAt shorter pos base) (wordAt region pos base) := by
  intro word hword
  obtain ⟨hlen, rfl⟩ := wordAt_eq_ok.1 hword
  have hlonger := h.length_le
  exact ⟨_, wordAt_eq_ok.2 ⟨by omega, (take_of_starts h hlen).symm⟩, rfl⟩

theorem numberAt_carries (h : shorter <+: region) (pos base : Nat) (role : Role) :
    Carries Eq (numberAt shorter pos base role) (numberAt region pos base role) :=
  (wordAt_carries h pos base).bind_eq fun _ _ => .refl _

theorem readWord_carries (h : shorter <+: region) (pos : Nat) :
    Carries Eq (readWord shorter pos) (readWord region pos) := by
  intro word hword
  obtain ⟨hlen, hword⟩ := ite_error_eq_ok.1 hword
  have hlonger := h.length_le
  rw [length_word] at hlen
  refine ⟨word, ?_, rfl⟩
  rw [readWord_eq_ok (by omega), take_of_starts h hlen, hword]

theorem readNumber_carries (h : shorter <+: region) (pos : Nat) :
    Carries Eq (readNumber shorter pos) (readNumber region pos) :=
  (readWord_carries h pos).bind_eq fun _ _ => .refl _

/-! ## The check -/

/-- The check of the type lets a region pass that starts with one that passes. -/
def Grows (a : AbiType) : Prop :=
  ∀ {shorter region : List UInt8} {base : Nat}, shorter <+: region →
    Carries Eq (checkValue a shorter base) (checkValue a region base)

theorem tailAt_carries (h : shorter <+: region) (pos base head : Nat) :
    Carries Inside (tailAt shorter pos base head) (tailAt region pos base head) := by
  have hlonger := h.length_le
  refine (numberAt_carries h pos base .offset).bind fun offset _ _ heq => ?_
  subst heq
  refine (Carries.require _ _ id).bind fun _ _ _ _ => ?_
  refine (Carries.require _ _ fun hinside => ?_).bind fun _ _ _ _ => ?_
  · rw [decide_eq_true_eq] at hinside ⊢
    omega
  · exact .of_ok ⟨drop_starts h offset, rfl⟩

theorem checkPlaced_carries (ha : Grows a) (h : shorter <+: region) (size base head pos : Nat) :
    Carries Eq (checkPlaced a size (checkValue a) shorter base head pos)
      (checkPlaced a size (checkValue a) region base head pos) := by
  unfold checkPlaced
  cases a.isDynamic with
  | true =>
    intro u hu
    cases htail : tailAt shorter pos base head with
    | error fault => simp [htail] at hu
    | ok tail =>
      obtain ⟨longer, hlonger, hstarts, hoffset⟩ := tailAt_carries h pos base head tail htail
      simp only [htail, if_true, hoffset] at hu
      simp only [hlonger, if_true]
      obtain ⟨s, hs, -⟩ := ha hstarts u hu
      exact ⟨s, hs, trivial⟩
  | false => exact ha (List.IsPrefix.take (drop_starts h pos) size)

theorem checkMembers_carries (ha : ∀ a ∈ types, Grows a) (h : shorter <+: region)
    (base head pos : Nat) :
    Carries Eq (checkMembers types shorter base head pos)
      (checkMembers types region base head pos) := by
  induction types generalizing pos with
  | nil => exact .refl _
  | cons a as ih =>
    rw [List.forall_mem_cons] at ha
    rw [checkMembers, checkMembers]
    refine (Carries.refl _).bind_eq fun size _ => ?_
    exact (checkPlaced_carries ha.1 h size base head pos).bind_eq fun _ _ => ih ha.2 (pos + size)

theorem grows_tuple (ha : ∀ a ∈ types, Grows a) : Grows (.tuple types) := by
  intro shorter region base h
  have hlonger := h.length_le
  rw [checkValue, checkValue]
  refine (Carries.refl _).bind_eq fun head _ => ?_
  refine (Carries.require _ _ fun hhead => ?_).bind_eq fun _ _ => ?_
  · rw [decide_eq_true_eq] at hhead ⊢
    omega
  · exact checkMembers_carries ha h base head 0

theorem grows_copies (ha : Grows a) (n : Nat) : Grows (.tuple (List.replicate n a)) := by
  refine grows_tuple fun b hb => ?_
  rw [List.eq_of_mem_replicate hb]
  exact ha

theorem grows_array (ha : Grows a) : Grows (.array a) := by
  intro shorter region base h u hu
  obtain ⟨n, hn, -⟩ := ok_of_bind (by rwa [checkValue] at hu)
  have hn' := (numberAt_carries h 0 base .length).eq_ok hn
  obtain ⟨hmeasured, hfits, helements⟩ := (checkValue_array_eq_ok hn).1 hu
  have hbody := drop_starts h 32
  refine ⟨u, (checkValue_array_eq_ok hn').2 ⟨hmeasured, ?_, ?_⟩, rfl⟩
  · exact Nat.le_trans hfits (Nat.div_le_div_right hbody.length_le)
  · exact (grows_copies ha n hbody).eq_ok helements

/-- The bytes of a text that stands in a region stand in a longer one as well. -/
theorem require_data_carries {length : Nat} (h : shorter <+: region) (fault : Fault) :
    Carries Eq (require (32 + length ≤ shorter.length) fault)
      (require (32 + length ≤ region.length) fault) := by
  have hlonger := h.length_le
  refine .require _ _ fun hlen => ?_
  rw [decide_eq_true_eq] at hlen ⊢
  omega

theorem grows (a : AbiType) : Grows a := by
  induction a using AbiType.memberInduction with
  | bool | int | uint | fixedBytes | address | function =>
    intro shorter region base h
    rw [checkValue, checkValue]
    exact (wordAt_carries h 0 base).bind_eq fun _ _ => .refl _
  | bytes =>
    intro shorter region base h
    rw [checkValue, checkValue]
    exact (numberAt_carries h 0 base .length).bind_eq fun _ _ => require_data_carries h _
  | string =>
    intro shorter region base h
    rw [checkValue, checkValue]
    refine (numberAt_carries h 0 base .length).bind_eq fun length _ => ?_
    refine (require_data_carries h _).bind_eq fun _ hlen => ?_
    rw [require_eq_ok, decide_eq_true_eq] at hlen
    rw [take_of_starts h hlen]
    exact .refl _
  | array elem ih => exact grows_array ih
  | fixedArray elem n ih =>
    intro shorter region base h
    rw [checkValue_fixedArray, checkValue_fixedArray]
    exact grows_copies ih n h
  | tuple members ih => exact grows_tuple ih
  | struct name fieldNames members ih => exact grows_tuple ih

/-! ## The reader -/

/-- The reader reads from a region what it reads from one that it starts with. -/
def ReadOn (a : AbiType) : Prop :=
  ∀ {shorter region : List UInt8} {pos depth : Nat}, shorter <+: region →
    Carries Eq (readValue a shorter pos depth) (readValue a region pos depth)

theorem inner_carries (h : shorter <+: region) (pos depth : Nat) :
    Carries Inside (inner shorter pos depth) (inner region pos depth) := by
  have hlonger := h.length_le
  refine (Carries.refl _).bind_eq fun level _ => ?_
  intro s hs
  obtain ⟨hpos, rfl⟩ := ite_throw_eq_ok.1 hs
  exact ⟨_, ite_throw_eq_ok.2 ⟨by omega, rfl⟩, drop_starts h pos, rfl⟩

theorem follow_carries (h : shorter <+: region) (pos depth : Nat) :
    Carries Inside (follow shorter pos depth) (follow region pos depth) :=
  (readNumber_carries h pos).bind_eq fun offset _ => inner_carries h offset depth

theorem enter_carries (indirect : Bool) (h : shorter <+: region) (pos depth : Nat) :
    Carries Inside (enter indirect shorter pos depth) (enter indirect region pos depth) := by
  cases indirect with
  | true => exact follow_carries h pos depth
  | false => exact inner_carries h pos depth

theorem readData_carries (h : shorter <+: region) :
    Carries Eq (readData shorter) (readData region) := by
  refine (readNumber_carries h 0).bind_eq fun length _ => ?_
  intro data hdata
  obtain ⟨hlen, rfl⟩ := ite_throw_eq_ok.1 hdata
  have hsame : (region.drop 32).take length = (shorter.drop 32).take length := by
    have hbody := List.IsPrefix.take (drop_starts h 32) length
    have hfull : ((region.drop 32).take length).length ≤ length := List.length_take_le _ _
    exact (hbody.eq_of_length_le (by omega)).symm
  exact ⟨_, ite_throw_eq_ok.2 ⟨by rw [hsame, hlen], hsame⟩, rfl⟩

theorem readMembers_carries (ha : ∀ a ∈ types, ReadOn a) (h : shorter <+: region)
    (pos depth : Nat) :
    Carries Eq (readMembers types shorter pos depth) (readMembers types region pos depth) := by
  induction types generalizing pos with
  | nil => exact .refl _
  | cons a as ih =>
    rw [List.forall_mem_cons] at ha
    rw [readMembers, readMembers]
    refine (ha.1 h).bind_eq fun r _ => ?_
    exact (ih ha.2 r.2).bind_eq fun _ _ => .refl _

theorem readCopies_carries (ha : ReadOn a) (h : shorter <+: region) (n pos depth : Nat) :
    Carries Eq (readCopies (fun p => readValue a shorter p depth) n pos)
      (readCopies (fun p => readValue a region p depth) n pos) := by
  rw [← readMembers_replicate, ← readMembers_replicate]
  refine readMembers_carries (fun b hb => ?_) h pos depth
  rw [List.eq_of_mem_replicate hb]
  exact ha

theorem readSequence_carries {indirect : Bool}
    {read : List UInt8 → Nat → Except ReadFault (List Value × Nat)}
    (hread : ∀ {shorter region : List UInt8} {depth : Nat}, shorter <+: region →
      Carries Eq (read shorter depth) (read region depth))
    (h : shorter <+: region) (pos depth : Nat) :
    Carries Eq (readSequence indirect read shorter pos depth)
      (readSequence indirect read region pos depth) := by
  rw [readSequence_eq, readSequence_eq]
  refine (enter_carries indirect h pos depth).bind fun s t _ hst => ?_
  intro r hr
  obtain ⟨items, hitems, rfl⟩ := map_eq_ok.1 hr
  rw [hst.2] at hitems
  exact ⟨_, map_eq_ok.2 ⟨items, (hread hst.1).eq_ok hitems, rfl⟩, rfl⟩

theorem readOn_array (ha : ReadOn a) : ReadOn (.array a) := by
  intro shorter region pos depth h
  rw [readValue, readValue]
  refine (follow_carries h pos depth).bind ?_
  rintro ⟨body, level⟩ ⟨longer, level'⟩ - ⟨hbody, rfl⟩
  refine (readNumber_carries hbody 0).bind_eq fun n _ => ?_
  by_cases hempty : n = 0 ∨ a.isEmpty
  · rw [if_pos hempty, if_pos hempty]
    exact .refl _
  · rw [if_neg hempty, if_neg hempty]
    refine (inner_carries hbody 32 level).bind ?_
    rintro ⟨elements, level⟩ ⟨longer, level'⟩ - ⟨helements, rfl⟩
    exact (readCopies_carries ha helements n 0 level).bind_eq fun _ _ => .refl _

theorem readOn (a : AbiType) : ReadOn a := by
  induction a using AbiType.memberInduction with
  | bool | int | uint | fixedBytes | address | function =>
    intro shorter region pos depth h
    rw [readValue, readValue]
    exact (readWord_carries h pos).bind_eq fun _ _ => .refl _
  | bytes | string =>
    intro shorter region pos depth h
    rw [readValue, readValue]
    refine (follow_carries h pos depth).bind fun s t _ hst => ?_
    exact (readData_carries hst.1).bind_eq fun _ _ => .refl _
  | array elem ih => exact readOn_array ih
  | fixedArray elem n ih =>
    intro shorter region pos depth h
    rw [readValue, readValue]
    refine (readSequence_carries (fun h => ?_) h pos depth).bind_eq fun _ _ => .refl _
    exact readCopies_carries ih h n 0 _
  | tuple members ih | struct name fieldNames members ih =>
    intro shorter region pos depth h
    rw [readValue, readValue]
    refine (readSequence_carries (fun h => ?_) h pos depth).bind_eq fun _ _ => .refl _
    exact readMembers_carries ih h 0 _

theorem read_carries (h : shorter <+: region) :
    Carries Eq (read types shorter) (read types region) := by
  unfold read
  split
  · exact .refl _
  · intro values hvalues
    obtain ⟨result, hresult, rfl⟩ := map_eq_ok.1 hvalues
    have hresult := (readMembers_carries (fun a _ => readOn a) h 0 0).eq_ok hresult
    exact ⟨_, map_eq_ok.2 ⟨result, hresult, rfl⟩, rfl⟩

/-! ## Payloads -/

theorem decode_carries {types : List Ty} {payload whole : List UInt8} (h : payload <+: whole) :
    Carries Eq (decode types payload) (decode types whole) := by
  intro values hvalues
  obtain ⟨abi, habi, hcheck, hread, hlegal⟩ := decode_eq_ok.1 hvalues
  have hcheck := (grows (.tuple abi) h).eq_ok hcheck
  have hread := (read_carries h).eq_ok hread
  exact ⟨values, decode_eq_ok.2 ⟨abi, habi, hcheck, hread, hlegal⟩, rfl⟩

/-- What is decoded from a payload is decoded from it with anything behind it as well.  So a payload
that is cut anywhere is refused, or gives what the whole one gives. -/
theorem decode_append (types : List Ty) (payload : List UInt8) :
    (∀ values rest, decode types payload = .ok values →
      decode types (payload ++ rest) = .ok values) ∧
    ∀ n, (∃ failure, decode types (payload.take n) = .error failure) ∨
      decode types (payload.take n) = decode types payload := by
  constructor
  · intro values rest h
    exact (decode_carries (List.prefix_append payload rest)).eq_ok h
  · intro n
    cases hcut : decode types (payload.take n) with
    | error failure => exact .inl ⟨failure, rfl⟩
    | ok values => exact .inr ((decode_carries (List.take_prefix n payload)).eq_ok hcut).symm

def nested : List UInt8 :=
  Value.numberWord 64 ++ Value.numberWord 7 ++
    (Value.numberWord 1 ++ (Value.numberWord 32 ++ (Value.numberWord 2 ++ [104, 105])))

/-- The text and the number are found with junk behind them, and nothing is decoded without the
text's last byte. -/
theorem decode_append_nested :
    decode [.dynArray (.string 8) 2, .uint 8] nested =
        .ok [.array [.string "hi"], .uint 7 8] ∧
      decode [.dynArray (.string 8) 2, .uint 8] (nested ++ [1, 2, 3]) =
        .ok [.array [.string "hi"], .uint 7 8] ∧
      ∃ failure,
        decode [.dynArray (.string 8) 2, .uint 8] (nested.take 161) = .error failure := by
  have hdecode : decode [.dynArray (.string 8) 2, .uint 8] nested =
      .ok [.array [.string "hi"], .uint 7 8] := by decide +kernel
  have hwhole := decode_append [.dynArray (.string 8) 2, .uint 8] nested
  refine ⟨hdecode, hwhole.1 _ [1, 2, 3] hdecode, (hwhole.2 161).resolve_right ?_⟩
  decide +kernel

end EvmInspect.Abi
