import EvmInspect.Proofs.Abi.Reached
import EvmInspect.Proofs.Abi.Read
/-!
# Reading what the strict check accepts

Where the check finds a value or a sequence, the reader finds it too.  Regions of the check are cut
where the reader's are not, so that each statement is about a region of the check that starts a
longer one of the reader.
-/

namespace EvmInspect

namespace Abi

variable {t : Ty} {a : AbiType} {members : List Ty} {types : List AbiType}
  {region shorter : List UInt8} {base head pos n : Nat}

/-! ## Reading from a longer region -/

theorem drop_starts (hstarts : shorter <+: region) (n : Nat) :
    shorter.drop n <+: region.drop n := by
  obtain ⟨rest, rfl⟩ := hstarts
  rw [List.drop_append]
  exact List.prefix_append _ _

theorem take_of_starts (hstarts : shorter <+: region) (hlen : pos + n ≤ shorter.length) :
    (region.drop pos).take n = (shorter.drop pos).take n := by
  obtain ⟨rest, rfl⟩ := hstarts
  rw [List.drop_append_of_le_length (by omega), List.take_append_of_le_length]
  rw [List.length_drop]
  omega

theorem numberIn_of_starts (hstarts : shorter <+: region) (hlen : pos + 32 ≤ shorter.length) :
    numberIn region pos = numberIn shorter pos := by
  rw [numberIn, take_of_starts hstarts hlen, numberIn]

theorem readWord_eq_ok (hlen : pos + 32 ≤ region.length) :
    readWord region pos = .ok ((region.drop pos).take 32) := by
  simp only [readWord, length_word.2 hlen, if_true]

theorem readNumber_eq_ok (hlen : pos + 32 ≤ region.length)
    (hle : numberIn region pos ≤ Size.limit) :
    readNumber region pos = .ok (numberIn region pos) := by
  unfold readNumber
  rw [readWord_eq_ok hlen]
  simp only [bind, Except.bind, pure, Except.pure]
  exact if_pos hle

theorem inner_cases (depth : Nat) (hpos : pos ≤ region.length) :
    inner region pos depth = .error .tooDeep ∨
      inner region pos depth = .ok (region.drop pos, depth + 1) := by
  unfold inner deeper
  by_cases hdepth : depth < depthLimit
  · right
    simp only [if_pos hdepth, bind, Except.bind, if_pos hpos, pure, Except.pure]
  · left
    simp only [if_neg hdepth, bind, Except.bind]

/-- The reader enters the region of a value of a sequence, in place or behind an offset. -/
def enter (indirect : Bool) (region : List UInt8) (pos depth : Nat) :
    Except ReadFault (List UInt8 × Nat) :=
  if indirect then follow region pos depth else inner region pos depth

/-- Where the check finds a value, the reader finds it too, if it gets that deep. -/
theorem enter_of_checkPlaced (ht : t.HasCallType a) (hstarts : shorter <+: region)
    (h : checkPlaced a a.headSize (checkValue a) shorter base head pos = .ok ()) (depth : Nat) :
    ∃ body start, body <+: t.placed region pos ∧ checkValue a body start = .ok () ∧
      (a.isDynamic = false → body.length ≤ a.staticSize) ∧
      (enter a.isDynamic region pos depth = .error .tooDeep ∨
        enter a.isDynamic region pos depth = .ok (t.placed region pos, depth + 1)) := by
  have hlonger := hstarts.length_le
  cases hd : a.isDynamic with
  | true =>
    obtain ⟨hlen, hle, hinside, start, hbody⟩ := of_checkPlaced_dynamic hd h
    have hnumber := numberIn_of_starts hstarts hlen
    rw [ht.placed_dynamic hd, hnumber]
    refine ⟨_, start, drop_starts hstarts _, hbody, by simp, ?_⟩
    rw [enter, if_pos rfl, follow, readNumber_eq_ok (by omega) (by omega), hnumber]
    exact inner_cases depth (by omega)
  | false =>
    have hbody := of_checkPlaced_static hd h
    obtain ⟨hword, hsize⟩ := ht.covered.le_of_checkPlaced h
    rw [ht.placed_static hd, ← AbiType.headSize_of_static hd]
    refine ⟨_, _, (List.take_prefix _ _).trans (drop_starts hstarts pos), hbody, ?_, ?_⟩
    · intro _
      rw [List.length_take]
      exact Nat.min_le_left _ _
    · rw [enter, if_neg (by simp)]
      exact inner_cases depth (by omega)

/-! ## What a check of decoded values says -/

/-- The check passes if bounds are kept, and complains about a length otherwise. -/
def Judged (kept : Prop) (result : Except Ty.Illegal Unit) : Prop :=
  kept ∧ result = .ok () ∨ ¬kept ∧ ∃ length t, result = .error (.tooLong length t)

namespace Judged

variable {kept kept' : Prop} {result : Except Ty.Illegal Unit}

theorem of_ok (hkept : kept) (h : result = .ok ()) : Judged kept result := Or.inl ⟨hkept, h⟩

theorem checkLength (n bound : Nat) (t : Ty) :
    Judged (n ≤ bound) (Ty.checkLength n bound t) := by
  unfold Ty.checkLength
  by_cases hle : n ≤ bound
  · exact .inl ⟨hle, if_pos hle⟩
  · exact .inr ⟨hle, n, t, if_neg hle⟩

theorem checkMembers_cons {ts : List Ty} {v : Value} {vs : List Value}
    (hhead : Judged kept (t.check v)) (htail : Judged kept' (Ty.checkMembers ts vs)) :
    Judged (kept ∧ kept') (Ty.checkMembers (t :: ts) (v :: vs)) := by
  rw [Ty.checkMembers]
  rcases hhead with ⟨hkept, hv⟩ | ⟨hkept, length, u, hv⟩
  · rw [hv]
    simpa [hkept] using htail
  · rw [hv]
    exact .inr ⟨fun h => hkept h.1, length, u, rfl⟩

end Judged

/-! ## Sequences -/

/-- Where the check finds a value of the type, the reader reads one that fits the call type, and
which its own length or one in it makes illegal, if anything. -/
structure Reads (t : Ty) (a : AbiType) : Prop where
  callType : t.HasCallType a
  read (shorter region : List UInt8) (base head pos depth : Nat) (hstarts : shorter <+: region)
    (hcheck : checkPlaced a a.headSize (checkValue a) shorter base head pos = .ok ()) :
    readValue a region pos depth = .error .tooDeep ∨
      ∃ v, readValue a region pos depth = .ok (v, pos + a.headSize) ∧ a.Fits v ∧
        Judged (Kept t (t.placed region pos)) (t.check v)

theorem readMembers_of_checkMembers (h : List.Forall₂ Reads members types) (depth : Nat)
    (hstarts : shorter <+: region)
    (hcheck : checkMembers types shorter base head pos = .ok ()) :
    readMembers types region pos depth = .error .tooDeep ∨
      ∃ items, readMembers types region pos depth = .ok (items, pos + extent types) ∧
        List.Forall₂ AbiType.Fits types items ∧
        Judged (KeptMembers members region pos) (Ty.checkMembers members items) := by
  induction h generalizing pos with
  | nil =>
    refine .inr ⟨[], rfl, .nil, .of_ok keptMembers_nil ?_⟩
    rw [Ty.checkMembers]
    simp
  | @cons t a ts as hhead _ ih =>
    obtain ⟨⟨-, hhere⟩, hrest⟩ := checkMembers_cons_eq_ok.1 hcheck
    rw [readMembers]
    rcases hhead.read _ _ _ _ _ depth hstarts hhere with
      hdeep | ⟨v, hv, hfits, hjudged⟩
    · exact .inl (by simp only [hdeep, bind, Except.bind])
    · rcases ih hrest with hdeep | ⟨items, hitems, hfitsRest, hjudgedRest⟩
      · exact .inl (by simp only [hv, hdeep, bind, Except.bind])
      · refine .inr ⟨v :: items, ?_, .cons hfits hfitsRest, ?_⟩
        · simp only [hv, hitems, bind, Except.bind, pure, Except.pure]
          rw [extent_cons, Nat.add_assoc]
        · rw [keptMembers_cons, hhead.callType.headSize_eq]
          exact hjudged.checkMembers_cons hjudgedRest

/-- A sequence is read in the region that is entered, and ends where its head does. -/
theorem readSequence_eq (indirect : Bool)
    (read : List UInt8 → Nat → Except ReadFault (List Value × Nat)) (region : List UInt8)
    (pos depth : Nat) :
    readSequence indirect read region pos depth =
      (enter indirect region pos depth >>= fun inside =>
        (read inside.1 inside.2).map fun result =>
          (result.1, pos + if indirect then 32 else result.2)) := by
  unfold readSequence enter
  cases indirect with
  | true =>
    cases follow region pos depth with
    | error => rfl
    | ok inside =>
      simp only [if_true, bind, Except.bind]
      cases read inside.1 inside.2 <;> rfl
  | false =>
    cases inner region pos depth with
    | error => rfl
    | ok inside =>
      simp only [Bool.false_eq_true, if_false, bind, Except.bind]
      cases read inside.1 inside.2 <;> rfl

theorem readSequence_of_checkPlaced (h : List.Forall₂ Reads members types)
    (ht : t.HasCallType a) (hsize : a.isDynamic = false → a.staticSize ≤ extent types)
    (hsame : ∀ region base, checkValue a region base = checkValue (.tuple types) region base)
    (depth : Nat) (hstarts : shorter <+: region)
    (hcheck : checkPlaced a a.headSize (checkValue a) shorter base head pos = .ok ()) :
    readSequence a.isDynamic (readMembers types · 0 ·) region pos depth = .error .tooDeep ∨
      ∃ items,
        readSequence a.isDynamic (readMembers types · 0 ·) region pos depth =
          .ok (items, pos + a.headSize) ∧
        (∀ u ∈ types, u.Measured) ∧ List.Forall₂ AbiType.Fits types items ∧
        Judged (KeptMembers members (t.placed region pos) 0) (Ty.checkMembers members items) := by
  obtain ⟨body, start, hbody, hvalue, hcut, henter⟩ := enter_of_checkPlaced ht hstarts hcheck depth
  rw [hsame] at hvalue
  obtain ⟨head', hmembers⟩ := of_checkValue_tuple hvalue
  have hcovered : ∀ a ∈ types, Covered a :=
    forall_of_forall₂ (h.imp fun _ _ h => h.callType.covered)
  have hextent := extent_le_of_checkMembers hcovered (Nat.zero_le _) hmembers
  -- a region that is cut to the size of the type cannot be smaller than the members
  have hend : (if a.isDynamic then 32 else 0 + extent types) = a.headSize := by
    unfold AbiType.headSize
    cases hd : a.isDynamic with
    | true => rfl
    | false =>
      have hle := hsize hd
      have hcut := hcut hd
      simp only [Bool.false_eq_true, if_false]
      omega
  rw [readSequence_eq]
  rcases henter with hdeep | henter
  · exact .inl (by rw [hdeep]; rfl)
  · rw [henter]
    rcases readMembers_of_checkMembers h (depth + 1) hbody hmembers with
      hdeep | ⟨items, hitems, hrest⟩
    · exact .inl (by simp only [bind, Except.bind, hdeep, Except.map])
    · refine .inr ⟨items, ?_, measured_of_checkMembers hmembers, hrest⟩
      simp only [bind, Except.bind, hitems, Except.map, hend]

end Abi

end EvmInspect
