import EvmInspect.Proofs.Abi.Check
/-!
# The reader reads what was encoded

A fitting value that stands in a region is read as it is, provided that the regions in it nest no
deeper than the reader follows them.
-/

namespace EvmInspect

namespace Value

mutual

/-- How many regions the reader opens, one in another, to read the value inside a sequence.  An
array opens one for its length and, if it has elements, another one for them. -/
def nesting : Value → Nat
  | .bytes _ | .string _ | .array [] => 1
  | .array (v :: vs) => 2 + nestings (v :: vs)
  | .fixedArray items | .tuple items | .struct _ _ items => 1 + nestings items
  | _ => 0

def nestings : List Value → Nat
  | [] => 0
  | v :: vs => max v.nesting (nestings vs)

end

end Value

namespace Abi

open Value (part parts partHead numberWord)

/-! ## Regions -/

theorem readWord_of_starts {word region : List UInt8} {pos : Nat} (hlen : word.length = 32)
    (h : word <+: region.drop pos) : readWord region pos = .ok word := by
  have htake := take_of_prefix_drop h
  rw [hlen] at htake
  simp only [readWord, htake, hlen, if_true]

theorem readNumber_of_starts {region : List UInt8} {pos n : Nat} (hn : n ≤ Size.limit)
    (h : numberWord n <+: region.drop pos) : readNumber region pos = .ok n := by
  unfold readNumber
  rw [readWord_of_starts (Value.length_numberWord n) h]
  simp only [bind, Except.bind, natOfBytes_numberWord hn, if_pos hn, pure, Except.pure]

theorem inner_of_le {region : List UInt8} {pos depth : Nat} (hpos : pos ≤ region.length)
    (hdepth : depth < depthLimit) : inner region pos depth = .ok (region.drop pos, depth + 1) := by
  simp only [inner, deeper, if_pos hdepth, bind, Except.bind, if_pos hpos, pure, Except.pure]

theorem follow_of_stands {region body : List UInt8} {head pos : Nat} (depth : Nat)
    (hregion : region.length ≤ Size.limit) (hdepth : depth < depthLimit)
    (h : Value.Stands region head pos (true, body)) :
    ∃ tail, follow region pos depth = .ok (tail, depth + 1) ∧ tail.length ≤ Size.limit ∧
      body <+: tail := by
  obtain ⟨offset, -, hinside, hword, hbody⟩ := h
  refine ⟨region.drop offset, ?_, ?_, hbody⟩
  · unfold follow
    rw [readNumber_of_starts (by omega) hword]
    exact inner_of_le (by omega) hdepth
  · rw [List.length_drop]
    omega

theorem readData_of_starts {region data : List UInt8} (hregion : region.length ≤ Size.limit)
    (h : numberWord data.length ++ Value.padded data <+: region) :
    readData region = .ok data := by
  have hlen := h.length_le
  simp only [Value.padded, List.length_append, Value.length_numberWord] at hlen
  have hnumber : numberWord data.length <+: region.drop 0 := (List.prefix_append _ _).trans h
  have htake : (region.drop 32).take data.length = data :=
    take_of_prefix_drop ((List.prefix_append _ _).trans (drop_counted h))
  unfold readData
  rw [readNumber_of_starts (by omega) hnumber]
  simp only [bind, Except.bind, htake, if_true, pure, Except.pure]

/-! ## Sequences -/

/-- The reader reads the value from wherever it stands, if there are enough levels left. -/
def Readable (t : AbiType) (v : Value) : Prop :=
  ∀ (region : List UInt8) (head pos depth : Nat), region.length ≤ Size.limit →
    Value.Stands region head pos v.part → depth + v.nesting ≤ depthLimit →
    readValue t region pos depth = .ok (v, pos + partHead v.part)

theorem readMembers_of_standFrom {types : List AbiType} {items : List Value}
    (h : List.Forall₂ Readable types items) {region : List UInt8} {head pos depth : Nat}
    (hregion : region.length ≤ Size.limit) (hdepth : depth + Value.nestings items ≤ depthLimit)
    (hstand : Value.StandFrom region head pos (parts items)) :
    readMembers types region pos depth = .ok (items, pos + Value.headsSize (parts items)) := by
  induction h generalizing pos with
  | nil => rfl
  | @cons t v ts vs hv _ ih =>
    rw [Value.parts_cons] at hstand
    obtain ⟨hhere, hrest⟩ := hstand
    rw [Value.nestings] at hdepth
    rw [readMembers, hv region head pos depth hregion hhere (by omega)]
    simp only [bind, Except.bind, pure, Except.pure]
    rw [ih (by omega) hrest, Value.parts_cons, Value.headsSize_cons, Nat.add_assoc]

theorem readMembers_replicate (t : AbiType) (n : Nat) (region : List UInt8) (pos depth : Nat) :
    readMembers (List.replicate n t) region pos depth =
      readCopies (fun p => readValue t region p depth) n pos := by
  induction n generalizing pos with
  | zero => rfl
  | succ n ih =>
    rw [List.replicate_succ, readMembers, readCopies]
    simp only [bind, Except.bind, pure, Except.pure]
    cases readValue t region pos depth with
    | error => rfl
    | ok p =>
      simp only [ih]
      cases readCopies (fun p => readValue t region p depth) n p.2 <;> rfl

theorem bodies_ne_nil {types : List AbiType} {items : List Value}
    (h : List.Forall₂ AbiType.Fits types items) : ∀ p ∈ parts items, p.2 ≠ [] := by
  induction h with
  | nil => simp [parts]
  | @cons t v ts vs hv _ ih =>
    rw [Value.parts_cons]
    intro p hp
    rcases List.mem_cons.1 hp with rfl | hp
    · apply List.ne_nil_of_length_pos
      exact Nat.lt_of_lt_of_le (by decide) hv.le_length_encode
    · exact ih p hp

theorem readMembers_of_assemble {types : List AbiType} {items : List Value}
    (hfit : List.Forall₂ AbiType.Fits types items) (hread : List.Forall₂ Readable types items)
    {region : List UInt8} (depth : Nat) (hregion : region.length ≤ Size.limit)
    (hdepth : depth + Value.nestings items ≤ depthLimit)
    (h : Value.assemble (parts items) <+: region) :
    readMembers types region 0 depth = .ok (items, Value.headsSize (parts items)) := by
  have hstand := Value.standFrom_of_assemble (bodies_ne_nil hfit) h
  rw [readMembers_of_standFrom hread hregion hdepth hstand, Nat.zero_add]

theorem readSequence_of_stands {types : List AbiType} {items : List Value} {indirect : Bool}
    (hfit : List.Forall₂ AbiType.Fits types items) (hread : List.Forall₂ Readable types items)
    (hne : items ≠ []) (hindirect : indirect = Value.anyDynamic items)
    {region : List UInt8} {head pos depth : Nat} (hregion : region.length ≤ Size.limit)
    (hdepth : depth + (1 + Value.nestings items) ≤ depthLimit)
    (h : Value.Stands region head pos (Value.tuple items).part) :
    readSequence indirect (fun body depth => readMembers types body 0 depth) region pos depth =
      .ok (items, pos + partHead (Value.tuple items).part) := by
  subst hindirect
  cases hd : Value.anyDynamic items with
  | true =>
    have hpart : (Value.tuple items).part = (true, Value.assemble (parts items)) := by
      rw [part, Value.isDynamic, hd, Value.encode]
    rw [hpart] at h ⊢
    obtain ⟨tail, hfollow, htail, hstart⟩ := follow_of_stands depth hregion (by omega) h
    unfold readSequence
    rw [hfollow]
    simp only [bind, Except.bind, pure, Except.pure, if_true]
    rw [readMembers_of_assemble hfit hread _ htail (by omega) hstart]
    rfl
  | false =>
    have hpart : (Value.tuple items).part = (false, Value.assemble (parts items)) := by
      rw [part, Value.isDynamic, hd, Value.encode]
    rw [hpart] at h ⊢
    have hstart : Value.assemble (parts items) <+: region.drop pos := h
    have hlen := hstart.length_le
    have hheads := Value.headsSize_le_length_assemble (parts items)
    have hwords := Value.mul_length_le_headsSize
      (forall_of_forall₂ (hfit.imp fun _ _ hv => hv.le_length_encode))
    have hpos := List.length_pos_iff.2 hne
    rw [List.length_drop] at hlen
    unfold readSequence
    rw [inner_of_le (by omega) (by omega)]
    simp only [bind, Except.bind, pure, Except.pure]
    rw [readMembers_of_assemble hfit hread _ (by rw [List.length_drop]; omega) (by omega) hstart]
    simp [partHead, Value.length_assemble_parts hd]

/-! ## All types -/

theorem readWord_of_stands {v : Value} {region : List UInt8} {head pos : Nat}
    (h : Value.Stands region head pos v.part) (hv : v.isDynamic = false)
    (hlen : v.encode.length = 32) :
    readWord region pos = .ok v.encode ∧ partHead v.part = 32 := by
  have hprefix : v.encode <+: region.drop pos := by simpa [Value.Stands, part, hv] using h
  exact ⟨readWord_of_starts hlen hprefix, by rw [Value.partHead_static hv, hlen]⟩

theorem readable_array {elem : AbiType} {items : List Value} (helem : elem.isEmpty = false)
    (hfit : ∀ v ∈ items, elem.Fits v) (hread : ∀ v ∈ items, Readable elem v) :
    Readable (.array elem) (.array items) := by
  intro region head pos depth hregion h hdepth
  have hpart : (Value.array items).part =
      (true, numberWord items.length ++ Value.assemble (parts items)) := rfl
  rw [hpart] at h ⊢
  have hlevel : depth < depthLimit := by
    cases items <;> simp only [Value.nesting] at hdepth <;> omega
  obtain ⟨tail, hfollow, htail, hstart⟩ := follow_of_stands depth hregion hlevel h
  have hlen := hstart.length_le
  rw [List.length_append, Value.length_numberWord] at hlen
  have hbody := drop_counted hstart
  have hheads := Value.headsSize_le_length_assemble (parts items)
  have hwords := Value.mul_length_le_headsSize fun v hv => (hfit v hv).le_length_encode
  have hcount : readNumber tail 0 = .ok items.length :=
    readNumber_of_starts (by omega) ((List.prefix_append _ _).trans hstart)
  rw [readValue, hfollow]
  simp only [bind, Except.bind, pure, Except.pure, hcount, helem, Bool.false_eq_true, or_false]
  cases items with
  | nil => rfl
  | cons v vs =>
    have hread := readMembers_of_assemble (forall₂_replicate hfit)
      (forall₂_replicate hread) (depth + 2) (by rw [List.length_drop]; omega)
      (by rw [Value.nesting] at hdepth; omega) hbody
    rw [readMembers_replicate] at hread
    rw [if_neg (by simp), inner_of_le (by omega) (by rw [Value.nesting] at hdepth; omega)]
    simp only [hread]
    rfl

theorem readable_of_fits {t : AbiType} {v : Value} (h : t.Fits v) : Readable t v := by
  induction h with
  | bool b =>
    intro region head pos depth _ h _
    obtain ⟨hword, hhead⟩ := readWord_of_stands h rfl (by simp [Value.encode])
    have hn : natOfBytes (numberWord (if b then 1 else 0)) = if b then 1 else 0 :=
      natOfBytes_numberWord (by cases b <;> decide)
    rw [readValue, hword, hhead]
    simp only [bind, Except.bind, pure, Except.pure, Value.encode, hn]
    cases b <;> rfl
  | int | uint | fixedBytes =>
    intro region head pos depth _ h _
    obtain ⟨hword, hhead⟩ := readWord_of_stands h rfl (by simp [Value.encode])
    rw [readValue, hword, hhead]
    simp only [bind, Except.bind, pure, Except.pure, Value.encode, Word.ofBytes_toBytes]
  | address a =>
    intro region head pos depth _ h _
    obtain ⟨hword, hhead⟩ := readWord_of_stands h rfl (by simp [Value.encode])
    have hdrop : a.toWord.toBytes.drop 12 = a.toBytes := by
      rw [Address.toBytes_toWord, List.drop_left' (by simp)]
    rw [readValue, hword, hhead]
    simp only [bind, Except.bind, pure, Except.pure, Value.encode, hdrop, Address.ofBytes_toBytes]
  | bytes data =>
    intro region head pos depth hregion h hdepth
    simp only [Value.nesting] at hdepth
    obtain ⟨tail, hfollow, htail, hstart⟩ :=
      follow_of_stands depth hregion (by omega) h
    rw [readValue, hfollow]
    simp only [bind, Except.bind, pure, Except.pure]
    rw [readData_of_starts htail hstart]
    rfl
  | string s =>
    intro region head pos depth hregion h hdepth
    simp only [Value.nesting] at hdepth
    obtain ⟨tail, hfollow, htail, hstart⟩ :=
      follow_of_stands depth hregion (by omega) h
    rw [Value.encode, ← Text.length_toUtf8] at hstart
    rw [readValue, hfollow]
    simp only [bind, Except.bind, pure, Except.pure]
    rw [readData_of_starts htail hstart]
    simp only [Text.ofUtf8Replacing_toUtf8]
    rfl
  | array helem _ hitems ih => exact readable_array helem hitems ih
  | @fixedArray elem items hne hsize hitems ih =>
    intro region head pos depth hregion h hdepth
    have hindirect : (items.length != 0 && elem.isIndirect) = Value.anyDynamic items :=
      (AbiType.Fits.fixedArray hne hsize hitems).isIndirect_eq
    have hseq := readSequence_of_stands (forall₂_replicate hitems)
      (forall₂_replicate ih) hne hindirect hregion hdepth h
    simp only [readMembers_replicate] at hseq
    rw [readValue, hseq]
    rfl
  | @tuple members items hne hlen hitems ih =>
    intro region head pos depth hregion h hdepth
    have hfit := forall₂_of_zip hlen hitems
    have hindirect : AbiType.anyIndirect members = Value.anyDynamic items :=
      AbiType.anyIndirect_eq_of_forall₂ (hfit.imp fun _ _ hv => hv.isIndirect_eq)
    have hitems' : items ≠ [] := by
      rintro rfl
      exact hne (List.length_eq_zero_iff.1 hlen)
    have hseq := readSequence_of_stands hfit (forall₂_of_zip hlen ih) hitems' hindirect
      hregion hdepth h
    rw [readValue, hseq]
    rfl

end Abi

end EvmInspect
