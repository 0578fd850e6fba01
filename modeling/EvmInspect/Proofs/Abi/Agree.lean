import EvmInspect.Proofs.Abi.Strict
import EvmInspect.Proofs.Layout.Decode
/-!
# Two decoders of values that stand in place

What it means that the decoder of native layouts and the decoder of encodings agree on a type: one
accepts the bytes of a value exactly if the other does, and both give the same value.  It is said
for any place in a buffer, so that it carries over from the members of a sequence to the sequence.
-/

namespace EvmInspect

namespace Ty

mutual

/-- How deep arrays, tuples and structs nest in the type. -/
def levels : Ty → Nat
  | .array elem _ => elem.levels + 1
  | .tuple members => membersLevels members + 1
  | .struct _ fields => fieldsLevels fields + 1
  | _ => 0

def membersLevels : List Ty → Nat
  | [] => 0
  | t :: ts => max t.levels (membersLevels ts)

def fieldsLevels : List (String × Ty) → Nat
  | [] => 0
  | f :: fs => max f.2.levels (fieldsLevels fs)

end

theorem fieldsLevels_eq (fields : List (String × Ty)) :
    fieldsLevels fields = membersLevels (fields.map Prod.snd) := by
  induction fields with
  | nil => rfl
  | cons f fs ih => rw [fieldsLevels, ih]; rfl

theorem membersLevels_replicate {n : Nat} (hn : n ≠ 0) (t : Ty) :
    membersLevels (List.replicate n t) = t.levels := by
  induction n with
  | zero => exact absurd rfl hn
  | succ n ih =>
    rw [List.replicate_succ, membersLevels]
    cases n with
    | zero => rw [List.replicate_zero, membersLevels, Nat.max_zero]
    | succ n => rw [ih (by omega), Nat.max_self]

end Ty

namespace Abi

open Layout (Source)

variable {t : Ty} {a : AbiType} {members : List Ty} {types : List AbiType}
  {data : List UInt8} {start pos depth : Nat} {v : Value} {vs : List Value}

theorem take_drop_take {n m : Nat} (h : pos + m ≤ n) :
    (((data.drop start).take n).drop pos).take m = (data.drop (start + pos)).take m := by
  rw [List.drop_take, List.take_take, List.drop_drop, Nat.min_eq_left (by omega)]

/-! ## What the two decoders agree on -/

/-- Wherever a value of the type stands, the strict check accepts it exactly if its layout can be
decoded, and then the reader reads the same value, unless it has to go too deep. -/
structure Agrees (t : Ty) (a : AbiType) : Prop where
  callType : t.HasCallType a
  static : a.isDynamic = false
  measured : a.Measured
  size : a.headSize = t.room
  positive : 0 < t.room
  check_iff (data : List UInt8) (base pos : Nat) (hpos : pos + t.room ≤ Size.limit) :
    checkValue a ((data.drop pos).take t.room) base = .ok () ↔
      ∃ v, Layout.decode (.ofBytes data) t pos = .ok v
  within {data : List UInt8} {pos : Nat} {v : Value} (hpos : pos + t.room ≤ Size.limit)
    (h : Layout.decode (.ofBytes data) t pos = .ok v) :
    pos + t.room ≤ data.length ∧ t.check v = .ok ()
  read {data : List UInt8} {start pos depth : Nat} {v : Value}
    (hpos : start + pos + t.room ≤ Size.limit) (hdepth : depth ≤ depthLimit)
    (h : Layout.decode (.ofBytes data) t (start + pos) = .ok v) :
    readValue a (data.drop start) pos depth =
      if depth + t.levels ≤ depthLimit then .ok (v, pos + t.room) else .error .tooDeep

/-! ### Words -/

theorem levels_of_isWord (h : t.isWord = true) : t.levels = 0 := by
  cases t <;> simp_all [Ty.isWord, Ty.levels]

theorem room_of_isWord (h : t.isWord = true) : t.room = 32 := by
  cases t <;> simp_all [Ty.isWord, Ty.room]

/-- Values of the type are checked and read as one word. -/
structure AsWord (a : AbiType) (value : List UInt8 → Value) (condition : List UInt8 → Bool) :
    Prop where
  check (region : List UInt8) (base : Nat) : ∃ fault,
    checkValue a region base = (wordAt region 0 base >>= fun w => require (condition w) fault)
  read (region : List UInt8) (pos depth : Nat) :
    readValue a region pos depth = (readWord region pos).map fun word => (value word, pos + 32)

theorem agrees_word {value : List UInt8 → Value} {condition : List UInt8 → Bool}
    (h : AsWord a value condition) (ht : t.HasCallType a) (hword : t.isWord = true)
    (hdecode : ∀ src offset v, Layout.decode src t offset = .ok v ↔ ∃ w : Word,
      Layout.wordAt src offset = .ok w ∧ condition w.toBytes = true ∧ v = value w.toBytes)
    (hlegal : ∀ w : Word, condition w.toBytes = true → t.check (value w.toBytes) = .ok ()) :
    Agrees t a := by
  have hroom := room_of_isWord hword
  have hstatic : a.isDynamic = false ∧ a.headSize? = some t.room := by
    rw [hroom]
    cases ht <;> first | exact ⟨rfl, rfl⟩ | cases hword
  obtain ⟨hmeasured, hsize⟩ := AbiType.headSize?_eq_some.1 hstatic.2
  constructor
  · exact ht
  · exact hstatic.1
  · exact hmeasured
  · exact hsize
  · omega
  · intro data base pos _
    obtain ⟨fault, hfault⟩ := h.check ((data.drop pos).take t.room) base
    rw [hfault, bind_eq_ok, hroom]
    simp only [hdecode, wordAt_eq_ok, require_eq_ok, Layout.wordAt_ofBytes_eq_ok]
    constructor
    · rintro ⟨word, ⟨hlen, rfl⟩, hcondition⟩
      rw [List.length_take, List.length_drop] at hlen
      rw [List.drop_zero, List.take_take, Nat.min_self] at hcondition
      have hend : pos + 32 ≤ data.length := by omega
      obtain ⟨w, hw⟩ : ∃ w : Word, w.toBytes = (data.drop pos).take 32 :=
        ⟨_, Word.toBytes_ofBytes (length_word.2 hend)⟩
      rw [← hw] at hcondition
      exact ⟨value w.toBytes, w, ⟨hend, hw⟩, hcondition, rfl⟩
    · rintro ⟨v, w, ⟨hlen, hw⟩, hcondition, rfl⟩
      have hlength := length_word.2 hlen
      refine ⟨w.toBytes, ⟨by omega, ?_⟩, hcondition⟩
      rw [List.drop_zero, List.take_take, Nat.min_self, hw]
  · intro data pos v _ hv
    obtain ⟨w, hw, hcondition, rfl⟩ := (hdecode _ _ _).1 hv
    rw [hroom]
    exact ⟨(Layout.wordAt_ofBytes_eq_ok.1 hw).1, hlegal w hcondition⟩
  · intro data start pos depth v _ hdepth hv
    obtain ⟨w, hw, -, rfl⟩ := (hdecode _ _ _).1 hv
    obtain ⟨hlen, hbytes⟩ := Layout.wordAt_ofBytes_eq_ok.1 hw
    have hregion : pos + 32 ≤ (data.drop start).length := by
      rw [List.length_drop]
      omega
    rw [levels_of_isWord hword, if_pos (by omega), h.read, readWord_eq_ok hregion, List.drop_drop,
      ← hbytes, hroom]
    rfl

/-! ### Sequences -/

theorem decodeMembers_cons_eq_ok {src : Source} {ts : List Ty} {offset : Nat}
    (hlimit : offset + t.room ≤ Size.limit) :
    Layout.decodeMembers src (t :: ts) offset = .ok vs ↔ ∃ v rest,
      Layout.decode src t offset = .ok v ∧
      Layout.decodeMembers src ts (offset + t.room) = .ok rest ∧ vs = v :: rest := by
  have hsize : t.layoutSize = t.room := Ty.layoutSize_eq_room (by omega)
  simp only [Layout.decodeMembers_cons_eq_ok, hsize, hlimit, true_and]

theorem checkPlaced_of_agrees (h : Agrees t a) {base head n : Nat} (hend : pos + t.room ≤ n)
    (hlimit : start + n ≤ Size.limit) :
    checkPlaced a t.room (checkValue a) ((data.drop start).take n) base head pos = .ok () ↔
      ∃ v, Layout.decode (.ofBytes data) t (start + pos) = .ok v := by
  rw [checkPlaced, h.static, if_neg Bool.false_ne_true, take_drop_take hend]
  exact h.check_iff data (base + pos) (start + pos) (by omega)

/-- A run of members that stands in a part of `n` bytes. -/
theorem checkMembers_of_agrees (h : List.Forall₂ Agrees members types) {base head n : Nat}
    (hend : pos + Ty.membersRoom members ≤ n) (hlimit : start + n ≤ Size.limit) :
    checkMembers types ((data.drop start).take n) base head pos = .ok () ↔
      ∃ vs, Layout.decodeMembers (.ofBytes data) members (start + pos) = .ok vs := by
  induction h generalizing pos with
  | nil => simp [checkMembers, Layout.decodeMembers]
  | @cons t a ts as hhead _ ih =>
    rw [Ty.membersRoom] at hend
    have hhere : checkPlaced a t.room (checkValue a) ((data.drop start).take n) base head pos =
        .ok () ↔ ∃ v, Layout.decode (.ofBytes data) t (start + pos) = .ok v :=
      checkPlaced_of_agrees hhead (by omega) hlimit
    have hrest := ih (by omega : pos + t.room + Ty.membersRoom ts ≤ n)
    rw [checkMembers_cons_eq_ok, hhead.size, iff_true_intro hhead.measured, true_and, hhere, hrest]
    simp only [decodeMembers_cons_eq_ok (by omega : start + pos + t.room ≤ Size.limit),
      Nat.add_assoc]
    constructor
    · rintro ⟨⟨v, hv⟩, rest, hrest⟩
      exact ⟨v :: rest, v, rest, hv, hrest, rfl⟩
    · rintro ⟨vs, v, rest, hv, hrest, rfl⟩
      exact ⟨⟨v, hv⟩, rest, hrest⟩

theorem within_of_decodeMembers (h : List.Forall₂ Agrees members types) {offset : Nat}
    (hlimit : offset + Ty.membersRoom members ≤ Size.limit)
    (hdecode : Layout.decodeMembers (.ofBytes data) members offset = .ok vs) :
    Ty.membersRoom members ≤ data.length - offset ∧ vs.length = members.length ∧
      Ty.checkMembers members vs = .ok () := by
  induction h generalizing offset vs with
  | nil =>
    cases hdecode
    refine ⟨Nat.zero_le _, rfl, ?_⟩
    rw [Ty.checkMembers]
    simp
  | @cons t a ts as hhead _ ih =>
    rw [Ty.membersRoom] at hlimit ⊢
    obtain ⟨v, rest, hv, hrest, rfl⟩ := (decodeMembers_cons_eq_ok (by omega)).1 hdecode
    obtain ⟨hlen, hlegal⟩ := hhead.within (by omega) hv
    obtain ⟨hroom, hcount, hlegals⟩ := ih (by omega) hrest
    refine ⟨by omega, by rw [List.length_cons, List.length_cons, hcount], ?_⟩
    rw [Ty.checkMembers, hlegal]
    exact hlegals

theorem readMembers_of_agrees (h : List.Forall₂ Agrees members types)
    (hlimit : start + pos + Ty.membersRoom members ≤ Size.limit) (hdepth : depth ≤ depthLimit)
    (hdecode : Layout.decodeMembers (.ofBytes data) members (start + pos) = .ok vs) :
    readMembers types (data.drop start) pos depth =
      if depth + Ty.membersLevels members ≤ depthLimit then
        .ok (vs, pos + Ty.membersRoom members)
      else .error .tooDeep := by
  induction h generalizing pos vs with
  | nil =>
    cases hdecode
    rw [Ty.membersLevels, if_pos (by omega)]
    rfl
  | @cons t a ts as hhead _ ih =>
    rw [Ty.membersRoom] at hlimit
    obtain ⟨v, rest, hv, hrest, rfl⟩ := (decodeMembers_cons_eq_ok (by omega)).1 hdecode
    rw [Nat.add_assoc] at hrest
    have hread := hhead.read (by omega) hdepth hv
    have hreads := ih (by omega) hrest
    rw [readMembers, hread, Ty.membersLevels, Ty.membersRoom]
    by_cases hdeep : depth + t.levels ≤ depthLimit
    · rw [if_pos hdeep]
      simp only [bind, Except.bind, hreads]
      by_cases hrestDeep : depth + Ty.membersLevels ts ≤ depthLimit
      · rw [if_pos hrestDeep, if_pos (by omega)]
        simp only [pure, Except.pure, Nat.add_assoc]
      · rw [if_neg hrestDeep, if_neg (by omega)]
    · rw [if_neg hdeep, if_neg (by omega)]
      rfl

theorem sum_headSize_eq_membersRoom
    (h : List.Forall₂ (fun t a => a.headSize = t.room) members types) :
    (types.map AbiType.headSize).sum = Ty.membersRoom members := by
  induction h with
  | nil => rfl
  | cons hhead _ ih => rw [List.map_cons, List.sum_cons, hhead, ih, Ty.membersRoom]

theorem headsSize_eq_membersRoom (h : List.Forall₂ (fun t a => a.headSize = t.room) members types)
    (hlimit : Ty.membersRoom members ≤ Size.limit) :
    AbiType.headsSize types = Ty.membersRoom members := by
  rw [AbiType.headsSize, sum_headSize_eq_membersRoom h, Nat.min_eq_left hlimit]

theorem positive_of_agrees (h : List.Forall₂ Agrees members types) (hne : members ≠ []) :
    0 < Ty.membersRoom members := by
  cases h with
  | nil => exact absurd rfl hne
  | cons hhead _ =>
    have := hhead.positive
    rw [Ty.membersRoom]
    omega

theorem agrees_sequence (value : List Value → Value) (h : List.Forall₂ Agrees members types)
    (hne : members ≠ []) (ht : t.HasCallType a) (hstatic : a.isDynamic = false)
    (hmeasured : a.Measured) (hsize : a.headSize = t.room)
    (hroom : t.room = Ty.membersRoom members)
    (hlevels : t.levels = Ty.membersLevels members + 1)
    (hsame : ∀ region base, checkValue a region base = checkValue (.tuple types) region base)
    (hread : ∀ region pos depth, readValue a region pos depth =
      (readSequence a.isDynamic (readMembers types · 0 ·) region pos depth).map fun result =>
        (value result.1, result.2))
    (hdecode : ∀ src offset, Layout.decode src t offset =
      (Layout.decodeMembers src members offset).map value)
    (hlegal : ∀ items, items.length = members.length →
      t.check (value items) = Ty.checkMembers members items) : Agrees t a := by
  have hpositive := positive_of_agrees h hne
  have hwithin {data : List UInt8} {pos : Nat} {v : Value} (hpos : pos + t.room ≤ Size.limit)
      (hv : Layout.decode (.ofBytes data) t pos = .ok v) :
      ∃ items, Layout.decodeMembers (.ofBytes data) members pos = .ok items ∧ v = value items ∧
        pos + t.room ≤ data.length ∧ t.check v = .ok () := by
    rw [hdecode, map_eq_ok] at hv
    obtain ⟨items, hitems, rfl⟩ := hv
    obtain ⟨hlen, hcount, hcheck⟩ := within_of_decodeMembers h (by omega) hitems
    exact ⟨items, hitems, rfl, by omega, by rw [hlegal items hcount, hcheck]⟩
  constructor
  · exact ht
  · exact hstatic
  · exact hmeasured
  · exact hsize
  · omega
  · intro data base pos hpos
    have hmembers : checkMembers types ((data.drop pos).take t.room) base
        (Ty.membersRoom members) 0 = .ok () ↔
          ∃ items, Layout.decodeMembers (.ofBytes data) members pos = .ok items :=
      checkMembers_of_agrees h (by omega) hpos
    rw [hsame, checkValue_tuple_eq_ok,
      headsSize_eq_membersRoom (h.imp fun _ _ ha => ha.size) (by omega)]
    constructor
    · rintro ⟨-, hcheck⟩
      obtain ⟨items, hitems⟩ := hmembers.1 hcheck
      exact ⟨value items, by rw [hdecode, hitems]; rfl⟩
    · rintro ⟨v, hv⟩
      obtain ⟨items, hitems, -, hlen, -⟩ := hwithin hpos hv
      refine ⟨?_, hmembers.2 ⟨items, hitems⟩⟩
      rw [List.length_take, List.length_drop]
      omega
  · intro data pos v hpos hv
    obtain ⟨-, -, -, hlen, hcheck⟩ := hwithin hpos hv
    exact ⟨hlen, hcheck⟩
  · intro data start pos depth v hpos hdepth hv
    obtain ⟨items, hitems, rfl, hlen, -⟩ := hwithin hpos hv
    rw [hread, hstatic, hlevels, readSequence_eq, enter, if_neg (by simp)]
    by_cases hdeep : depth < depthLimit
    · have hinner : inner (data.drop start) pos depth =
          .ok (data.drop (start + pos), depth + 1) := by
        rw [inner, deeper, if_pos hdeep, List.length_drop, List.drop_drop]
        exact if_pos (by omega)
      have hreads : readMembers types (data.drop (start + pos)) 0 (depth + 1) =
          if depth + 1 + Ty.membersLevels members ≤ depthLimit then
            .ok (items, 0 + Ty.membersRoom members)
          else .error .tooDeep :=
        readMembers_of_agrees h (by omega) (by omega) hitems
      simp only [hinner, bind, Except.bind, hreads]
      by_cases hlevel : depth + 1 + Ty.membersLevels members ≤ depthLimit
      · rw [if_pos hlevel, if_pos (by omega), hroom, Nat.zero_add]
        rfl
      · rw [if_neg hlevel, if_neg (by omega)]
        rfl
    · rw [if_neg (by omega), inner, deeper, if_neg hdeep]
      rfl

end Abi

end EvmInspect
