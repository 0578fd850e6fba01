import EvmInspect.Proofs.Abi.ExactSize
import EvmInspect.Proofs.Abi.Extent
import EvmInspect.Proofs.Ty.Written
/-!
# The strict check in machine words

The strict check once more, this time as a program in which every number is one that can be
addressed and every range is cut out of bytes that are there: where a sum of sizes or positions is
too large or a range ends behind its bytes, the program stops.  On data that can be addressed it
does so at the sizes of types alone, where the check says so, and gives what the check gives
otherwise.
-/

namespace EvmInspect

/-- The word of an integer or a fixed byte string can be cut where its width says. -/
def AbiType.HasWidth : AbiType → Prop
  | .int bits => 8 ≤ bits ∧ bits ≤ 256
  | .fixedBytes size => size ≤ 32
  | _ => True

namespace Abi

/-- A check in machine words: nothing comes of it if the program stops. -/
abbrev Guarded := EvmInspect.Guarded Fault

namespace Guarded

open EvmInspect.Guarded (of ofRun)

variable {α β : Type}

def stop : Guarded α := ofRun none

def sum (a b : Nat) : Guarded Nat := ofRun (Size.add? a b)

def diff (a b : Nat) : Guarded Nat := if b ≤ a then of (.ok (a - b)) else stop

def index (bytes : List UInt8) (i : Nat) : Guarded UInt8 :=
  if h : i < bytes.length then of (.ok bytes[i]) else stop

/-- A range by its start and end, which has to be there. -/
def slice (bytes : List UInt8) (start last : Nat) : Guarded (List UInt8) :=
  if start ≤ last ∧ last ≤ bytes.length then of (.ok ((bytes.drop start).take (last - start)))
  else stop

def failAt (base pos : Nat) (fault : Nat → Fault) : Guarded α := do
  let position ← sum base pos
  of (.error (fault position))

/-- The word at `pos`.  Its end is clamped, and that it may be missing is no reason to stop. -/
def wordAt (region : List UInt8) (pos base : Nat) : Guarded (List UInt8) :=
  let last := Size.add pos Size.wordBytes
  if pos ≤ last ∧ last ≤ region.length then of (.ok ((region.drop pos).take (last - pos)))
  else failAt base pos .shortWord

def numberAt (region : List UInt8) (pos base : Nat) (role : Role) : Guarded Nat := do
  let word ← wordAt region pos base
  if natOfBytes word ≤ Size.limit then of (.ok (natOfBytes word))
  else failAt base pos (.largeNumber role (Word.ofBytes word))

def tailAt (region : List UInt8) (pos base head : Nat) : Guarded (List UInt8 × Nat) := do
  let offset ← numberAt region pos base .offset
  if offset < head then failAt base pos fun position => .offsetIntoHead offset position head
  else if region.length ≤ offset then
    failAt base pos fun position => .offsetOutside offset position region.length
  else do
    let tail ← slice region offset region.length
    of (.ok (tail, offset))

def checkCopies (check : Nat → Guarded Unit) (size : Nat) : (n pos : Nat) → Guarded Unit
  | 0, _ => of (.ok ())
  | n + 1, pos => do
    check pos
    let next ← sum pos size
    checkCopies check size n next

def checkPlaced (t : AbiType) (size : Nat) (check : List UInt8 → Nat → Guarded Unit)
    (region : List UInt8) (base head pos : Nat) : Guarded Unit :=
  if t.isDynamic then do
    let (tail, offset) ← tailAt region pos base head
    let start ← sum base offset
    check tail start
  else do
    let last ← sum pos size
    let value ← slice region pos last
    let start ← sum base pos
    check value start

mutual

def checkValue : AbiType → (region : List UInt8) → (base : Nat) → Guarded Unit
  | .bool, region, base => do
    let word ← wordAt region 0 base
    of (require (natOfBytes word ≤ 1) (.badBool base))
  | .uint bits, region, base => do
    let word ← wordAt region 0 base
    of (require ((Word.ofBytes word).fitsUnsigned bits) (.unsignedRange base bits))
  | .int bits, region, base => do
    let word ← wordAt region 0 base
    let first ← diff Size.wordBytes (bits / 8)
    let byte ← index word first
    let front ← slice word 0 first
    let sign : UInt8 := if 128 ≤ byte.toNat then 255 else 0
    of (require (front.all (· == sign)) (.signedRange base bits))
  | .address, region, base => do
    let word ← wordAt region 0 base
    let padding ← slice word 0 12
    of (require (allZero padding) (.addressPadding base))
  | .function, region, base => do
    let word ← wordAt region 0 base
    let padding ← slice word 24 word.length
    of (require (allZero padding) (.functionPadding base))
  | .fixedBytes n, region, base => do
    let word ← wordAt region 0 base
    let padding ← slice word n word.length
    of (require (allZero padding) (.fixedBytesPadding n base))
  | .bytes, region, base => do
    let length ← numberAt region 0 base .length
    of (require (length ≤ (region.drop 32).length) (.shortData length base))
  | .string, region, base => do
    let length ← numberAt region 0 base .length
    of (require (length ≤ (region.drop 32).length) (.shortData length base))
    of (require (Text.ofUtf8? ((region.drop 32).take length)).isSome (.notText base))
  | .array elem, region, base => do
    let length ← numberAt region 0 base .length
    let body ← slice region 32 region.length
    let size ← ofRun elem.headSize?
    of (require (length ≤ body.length / max size 1) (.arrayTooLong length base))
    let start ← sum base 32
    let head := Size.mul length size
    of (require (head ≤ body.length) (.shortHead start head body.length))
    checkCopies (checkPlaced elem size (checkValue elem) body start head) size length 0
  | .fixedArray elem n, region, base => do
    let size ← if n = 0 then of (.ok 0) else ofRun elem.headSize?
    let head := Size.mul n size
    of (require (head ≤ region.length) (.shortHead base head region.length))
    checkCopies (checkPlaced elem size (checkValue elem) region base head) size n 0
  | .tuple members, region, base => do
    let head ← ofRun (AbiType.headsSize? members)
    of (require (head ≤ region.length) (.shortHead base head region.length))
    checkMembers members region base head 0
  | .struct _ _ members, region, base => do
    let head ← ofRun (AbiType.headsSize? members)
    of (require (head ≤ region.length) (.shortHead base head region.length))
    checkMembers members region base head 0

def checkMembers : List AbiType → (region : List UInt8) → (base head pos : Nat) → Guarded Unit
  | [], _, _, _, _ => of (.ok ())
  | t :: ts, region, base, head, pos => do
    let size ← ofRun t.headSize?
    checkPlaced t size (checkValue t) region base head pos
    let next ← sum pos size
    checkMembers ts region base head next

end

def check (types : List AbiType) (data : List UInt8) : Guarded Unit :=
  checkValue (.tuple types) data 0

/-! ## Steps

Each step is the one of the check, as long as its position lies in the region and the region ends at
an addressable position.  Where the check has a fault at which the program stops, it stops. -/

/-- What comes of a check, if the faults at which the program stops are taken for stops. -/
def settle : Except Fault α → Guarded α
  | .ok a => of (.ok a)
  | .error e => if e.stops then stop else of (.error e)

theorem settle_error_bind (e : Fault) (g : α → Guarded β) :
    settle (.error e) >>= g = settle (.error e) := by
  rw [settle, settle]
  cases e.stops <;> rfl

theorem settle_bind {x : Except Fault α} {f : α → Except Fault β} {g : α → Guarded β}
    (h : ∀ a, x = .ok a → g a = settle (f a)) : settle x >>= g = settle (x >>= f) := by
  cases x with
  | ok a => exact h a rfl
  | error e => exact settle_error_bind e g

theorem ok_bind (a : α) (g : α → Guarded β) : of (.ok a) >>= g = g a := rfl

theorem ofRun_eq (size : Run Nat) : ofRun size = settle (sized size) := by
  cases size <;> rfl

theorem of_require {condition : Bool} {fault : Fault} (h : fault.stops = false) :
    of (require condition fault) = settle (require condition fault) := by
  cases condition with
  | true => rfl
  | false => simp [require, settle, h]

variable {region : List UInt8} {base head pos : Nat}

theorem sum_eq {a b : Nat} (h : a + b ≤ Size.limit) : sum a b = of (.ok (a + b)) := by
  rw [sum, Size.add?, if_pos h]
  rfl

theorem diff_eq {a b : Nat} (h : b ≤ a) : diff a b = of (.ok (a - b)) := if_pos h

theorem slice_eq {bytes : List UInt8} {start last : Nat} (h : start ≤ last)
    (hlast : last ≤ bytes.length) :
    slice bytes start last = of (.ok ((bytes.drop start).take (last - start))) :=
  if_pos ⟨h, hlast⟩

theorem slice_to_end {bytes : List UInt8} {start : Nat} (h : start ≤ bytes.length) :
    slice bytes start bytes.length = of (.ok (bytes.drop start)) := by
  rw [slice_eq h (Nat.le_refl _), List.take_of_length_le (by rw [List.length_drop])]

theorem failAt_eq {fault : Nat → Fault} (h : base + pos ≤ Size.limit)
    (hreported : ∀ position, (fault position).stops = false) :
    (failAt base pos fault : Guarded α) = settle (.error (fault (base + pos))) := by
  rw [failAt, sum_eq h, settle, hreported]
  rfl

theorem wordAt_eq (hpos : pos ≤ region.length) (hend : base + region.length < Size.limit) :
    wordAt region pos base = settle (Abi.wordAt region pos base) := by
  have hlast : Size.add pos Size.wordBytes = min (pos + 32) Size.limit := rfl
  rw [wordAt, Abi.wordAt, hlast]
  simp only [length_word]
  by_cases hword : pos + 32 ≤ region.length
  · rw [Nat.min_eq_left (by omega), if_pos ⟨by omega, hword⟩, if_pos hword,
      Nat.add_sub_cancel_left]
    rfl
  · rw [if_neg (by omega), if_neg hword, failAt_eq (by omega) fun _ => rfl]

theorem numberAt_eq (hpos : pos ≤ region.length) (hend : base + region.length < Size.limit)
    (role : Role) : numberAt region pos base role = settle (Abi.numberAt region pos base role) := by
  rw [numberAt, wordAt_eq hpos hend]
  refine settle_bind fun word _ => ?_
  by_cases hn : natOfBytes word ≤ Size.limit
  · rw [if_pos hn]
    change settle (.ok (natOfBytes word)) = _
    exact congrArg settle (if_pos hn).symm
  · rw [if_neg hn, failAt_eq (by omega) fun _ => rfl]
    exact (congrArg settle (if_neg hn)).symm

theorem tailAt_eq (hpos : pos ≤ region.length) (hend : base + region.length < Size.limit) :
    tailAt region pos base head = settle (Abi.tailAt region pos base head) := by
  rw [tailAt, numberAt_eq hpos hend]
  refine settle_bind fun offset _ => ?_
  have hposition : base + pos ≤ Size.limit := by omega
  by_cases hhead : offset < head
  · rw [if_pos hhead, require, decide_eq_false (by omega), failAt_eq hposition fun _ => rfl]
    rfl
  · rw [if_neg hhead, require, decide_eq_true (by omega)]
    by_cases hinside : region.length ≤ offset
    · rw [if_pos hinside, require, decide_eq_false (by omega), failAt_eq hposition fun _ => rfl]
      rfl
    · rw [if_neg hinside, require, decide_eq_true (by omega), slice_to_end (by omega)]
      rfl

/-! ## Sequences -/

/-- A check in machine words that gives the same as another one on every region that ends at an
addressable position. -/
def Faithful (check : List UInt8 → Nat → Guarded Unit)
    (spec : List UInt8 → Nat → Except Fault Unit) : Prop :=
  ∀ region base, base + region.length < Size.limit →
    check region base = settle (spec region base)

variable {t : AbiType} {size : Nat} {check : List UInt8 → Nat → Guarded Unit}
  {spec : List UInt8 → Nat → Except Fault Unit}

theorem checkPlaced_eq (h : Faithful check spec) (hpos : pos ≤ region.length)
    (hplace : t.isDynamic = false → pos + size ≤ region.length)
    (hend : base + region.length < Size.limit) :
    checkPlaced t size check region base head pos =
      settle (Abi.checkPlaced t size spec region base head pos) := by
  rw [checkPlaced, Abi.checkPlaced]
  cases hd : t.isDynamic with
  | true =>
    rw [if_pos rfl, if_pos rfl, tailAt_eq hpos hend]
    cases htail : Abi.tailAt region pos base head with
    | error e => exact settle_error_bind e _
    | ok found =>
      obtain ⟨tail, offset⟩ := found
      obtain ⟨-, hinside, rfl⟩ := of_tailAt htail
      change sum base offset >>= _ = _
      rw [sum_eq (by omega), ok_bind]
      exact h _ _ (by rw [List.length_drop]; omega)
  | false =>
    have hroom := hplace hd
    rw [if_neg Bool.false_ne_true, if_neg Bool.false_ne_true, sum_eq (by omega), ok_bind,
      slice_eq (by omega) hroom, ok_bind, sum_eq (by omega), ok_bind, Nat.add_sub_cancel_left]
    exact h _ _ (by rw [List.length_take, List.length_drop]; omega)

theorem checkCopies_eq {check : Nat → Guarded Unit} {spec : Nat → Except Fault Unit}
    {n pos : Nat} (bound : Nat) (hbound : bound ≤ Size.limit)
    (h : ∀ pos, pos + size ≤ bound → check pos = settle (spec pos))
    (hpos : pos + n * size ≤ bound) :
    checkCopies check size n pos = settle (Abi.checkCopies spec size n pos) := by
  induction n generalizing pos with
  | zero => rfl
  | succ n ih =>
    rw [Nat.succ_mul] at hpos
    have hstep : Abi.checkCopies spec size (n + 1) pos =
        (spec pos >>= fun _ => Abi.checkCopies spec size n (pos + size)) := by
      rw [Abi.checkCopies]
      cases spec pos <;> rfl
    rw [checkCopies, hstep, h pos (by omega)]
    refine settle_bind fun _ _ => ?_
    rw [sum_eq (by omega), ok_bind]
    exact ih (by omega)

theorem checkMembers_eq {types : List AbiType}
    (h : ∀ t ∈ types, Faithful (checkValue t) (Abi.checkValue t))
    (hpos : pos + extent types ≤ region.length) (hend : base + region.length < Size.limit) :
    checkMembers types region base head pos =
      settle (Abi.checkMembers types region base head pos) := by
  induction types generalizing pos with
  | nil =>
    rw [checkMembers, Abi.checkMembers]
    rfl
  | cons t ts ih =>
    rw [List.forall_mem_cons] at h
    rw [extent_cons] at hpos
    rw [checkMembers, Abi.checkMembers, ofRun_eq]
    refine settle_bind fun size hsize => ?_
    obtain ⟨-, rfl⟩ := AbiType.headSize?_eq_some.1 (sized_eq_ok.1 hsize)
    rw [checkPlaced_eq h.1 (by omega) (fun _ => by omega) hend]
    refine settle_bind fun _ _ => ?_
    rw [sum_eq (by omega), ok_bind]
    exact ih h.2 (by omega)

theorem checkHeads_eq {types : List AbiType}
    (h : ∀ t ∈ types, Faithful (checkValue t) (Abi.checkValue t)) :
    Faithful (checkValue (.tuple types)) (Abi.checkValue (.tuple types)) := by
  intro region base hend
  rw [checkValue, Abi.checkValue, ofRun_eq]
  refine settle_bind fun head hhead => ?_
  obtain ⟨-, rfl⟩ := AbiType.headsSize?_eq_some.1 (sized_eq_ok.1 hhead)
  rw [of_require rfl]
  refine settle_bind fun _ hinside => checkMembers_eq h ?_ hend
  rw [require_eq_ok, decide_eq_true_eq, AbiType.headsSize] at hinside
  unfold extent
  omega

theorem checkElements_eq {n : Nat} (h : Faithful (checkValue t) (Abi.checkValue t))
    (hend : base + region.length < Size.limit) :
    (do
      of (require (Size.mul n size ≤ region.length)
        (.shortHead base (Size.mul n size) region.length))
      checkCopies (checkPlaced t size (checkValue t) region base (Size.mul n size)) size n 0) =
    settle (do
      require (Size.mul n size ≤ region.length) (.shortHead base (Size.mul n size) region.length)
      Abi.checkCopies
        (Abi.checkPlaced t size (Abi.checkValue t) region base (Size.mul n size)) size n 0) := by
  rw [of_require rfl]
  refine settle_bind fun _ hinside => ?_
  rw [require_eq_ok, decide_eq_true_eq, Size.mul] at hinside
  exact checkCopies_eq region.length (by omega)
    (fun pos hpos => checkPlaced_eq h (by omega) (fun _ => hpos) hend) (by omega)

/-! ## Values -/

theorem length_of_wordAt {word : List UInt8} (h : Abi.wordAt region pos base = .ok word) :
    word.length = 32 := by
  obtain ⟨hlen, rfl⟩ := wordAt_eq_ok.1 h
  exact length_word.2 hlen

theorem le_length_body {role : Role} {n length : Nat}
    (h : Abi.numberAt region 0 base role = .ok n) :
    decide (length ≤ (region.drop 32).length) = decide (32 + length ≤ region.length) := by
  obtain ⟨hword, -⟩ := numberAt_eq_ok.1 h
  rw [List.length_drop, decide_eq_decide]
  omega

theorem index_eq {bytes : List UInt8} {i : Nat} (h : i < bytes.length) :
    index bytes i = of (.ok (bytes.getD i 0)) := by
  simp [index, List.getD, h]

theorem faithful_checkValue (h : ∀ u : AbiType, u.Within t → u.HasWidth) :
    Faithful (checkValue t) (Abi.checkValue t) := by
  intro region base hend
  -- every region that is cut out of this one ends where it ends or before
  induction t using AbiType.memberInduction generalizing region base with
  | bool | uint bits =>
    rw [checkValue, Abi.checkValue, wordAt_eq (Nat.zero_le _) hend]
    exact settle_bind fun word _ => of_require rfl
  | int bits =>
    rw [checkValue, Abi.checkValue, wordAt_eq (Nat.zero_le _) hend]
    refine settle_bind fun word hword => ?_
    have hlen := length_of_wordAt hword
    obtain ⟨hlow, hhigh⟩ : 8 ≤ bits ∧ bits ≤ 256 := h _ .here
    rw [diff_eq (show bits / 8 ≤ Size.wordBytes by unfold Size.wordBytes; omega), ok_bind,
      index_eq (by unfold Size.wordBytes; omega), ok_bind, slice_eq (Nat.zero_le _)
      (by unfold Size.wordBytes; omega), ok_bind]
    exact of_require rfl
  | fixedBytes size =>
    rw [checkValue, Abi.checkValue, wordAt_eq (Nat.zero_le _) hend]
    refine settle_bind fun word hword => ?_
    have hsize : size ≤ 32 := h _ .here
    rw [slice_to_end (by rw [length_of_wordAt hword]; exact hsize), ok_bind]
    exact of_require rfl
  | address =>
    rw [checkValue, Abi.checkValue, wordAt_eq (Nat.zero_le _) hend]
    refine settle_bind fun word hword => ?_
    rw [slice_eq (by omega) (by rw [length_of_wordAt hword]; omega), ok_bind]
    exact of_require rfl
  | function =>
    rw [checkValue, Abi.checkValue, wordAt_eq (Nat.zero_le _) hend]
    refine settle_bind fun word hword => ?_
    rw [slice_to_end (by rw [length_of_wordAt hword]; omega), ok_bind]
    exact of_require rfl
  | bytes =>
    rw [checkValue, Abi.checkValue, numberAt_eq (Nat.zero_le _) hend]
    refine settle_bind fun length hlength => ?_
    rw [le_length_body hlength]
    exact of_require rfl
  | string =>
    rw [checkValue, Abi.checkValue, numberAt_eq (Nat.zero_le _) hend]
    refine settle_bind fun length hlength => ?_
    rw [le_length_body hlength, of_require rfl]
    exact settle_bind fun _ _ => of_require rfl
  | array elem ih =>
    rw [checkValue, Abi.checkValue, numberAt_eq (Nat.zero_le _) hend]
    refine settle_bind fun length hlength => ?_
    obtain ⟨hword, -⟩ := numberAt_eq_ok.1 hlength
    rw [slice_to_end (by omega), ok_bind, ofRun_eq]
    refine settle_bind fun size _ => ?_
    rw [of_require rfl]
    refine settle_bind fun _ _ => ?_
    rw [sum_eq (by omega), ok_bind]
    refine checkElements_eq (ih fun u hu => h u (.array hu)) ?_
    rw [List.length_drop]
    omega
  | fixedArray elem n ih =>
    have helem := ih fun u hu => h u (.fixedArray n hu)
    rw [checkValue, Abi.checkValue]
    by_cases hn : n = 0
    · rw [if_pos hn, if_pos hn, ok_bind]
      exact checkElements_eq helem hend
    · rw [if_neg hn, if_neg hn, ofRun_eq]
      exact settle_bind fun size _ => checkElements_eq helem hend
  | tuple members ih =>
    exact checkHeads_eq (fun t ht => ih t ht fun u hu => h u (.tuple ht hu)) region base hend
  | struct name fieldNames members ih =>
    have hmembers := fun t ht => ih t ht fun u hu => h u (.struct name fieldNames ht hu)
    exact checkHeads_eq hmembers region base hend

/-! ## Types with sizes at every depth -/

theorem settle_of_reported {x : Except Fault α} (h : Reported Fault.stops x) : settle x = of x := by
  cases x with
  | ok a => rfl
  | error e => rw [settle, h e rfl, if_neg Bool.false_ne_true]

theorem reported_require {condition : Bool} {fault : Fault} (h : fault.stops = false) :
    Reported Fault.stops (require condition fault) := by
  cases condition with
  | true => exact reported_ok ()
  | false => exact reported_error h

theorem reported_wordAt (region : List UInt8) (pos base : Nat) :
    Reported Fault.stops (Abi.wordAt region pos base) := by
  rw [Abi.wordAt]
  split
  · exact reported_ok _
  · exact reported_error rfl

theorem reported_numberAt (region : List UInt8) (pos base : Nat) (role : Role) :
    Reported Fault.stops (Abi.numberAt region pos base role) := by
  refine (reported_wordAt region pos base).bind fun word => ?_
  dsimp only
  split
  · exact reported_ok _
  · exact reported_error rfl

theorem reported_tailAt : Reported Fault.stops (Abi.tailAt region pos base head) :=
  (reported_numberAt region pos base .offset).bind fun _ =>
    (reported_require rfl).bind fun _ => (reported_require rfl).bind fun _ => reported_ok _

theorem reported_checkPlaced (h : ∀ region base, Reported Fault.stops (spec region base)) :
    Reported Fault.stops (Abi.checkPlaced t size spec region base head pos) := by
  rw [Abi.checkPlaced]
  split
  · cases htail : Abi.tailAt region pos base head with
    | error e => exact reported_error (reported_tailAt e htail)
    | ok found => exact h _ _
  · exact h _ _

theorem reported_checkCopies {spec : Nat → Except Fault Unit}
    (h : ∀ pos, Reported Fault.stops (spec pos)) (n pos : Nat) :
    Reported Fault.stops (Abi.checkCopies spec size n pos) := by
  induction n generalizing pos with
  | zero => exact reported_ok ()
  | succ n ih =>
    rw [Abi.checkCopies]
    cases hhere : spec pos with
    | ok => exact ih _
    | error e => exact reported_error (h pos e hhere)

theorem reported_checkMembers {types : List AbiType}
    (h : ∀ t ∈ types,
      t.Measured ∧ ∀ region base, Reported Fault.stops (Abi.checkValue t region base)) :
    Reported Fault.stops (Abi.checkMembers types region base head pos) := by
  induction types generalizing pos with
  | nil =>
    rw [Abi.checkMembers]
    exact reported_ok ()
  | cons t ts ih =>
    rw [List.forall_mem_cons] at h
    rw [Abi.checkMembers, h.1.1.headSize?_eq]
    exact (reported_checkPlaced h.1.2).bind fun _ => ih h.2

theorem reported_tuple {types : List AbiType}
    (h : ∀ t ∈ types,
      t.Measured ∧ ∀ region base, Reported Fault.stops (Abi.checkValue t region base)) :
    Reported Fault.stops (Abi.checkValue (.tuple types) region base) := by
  rw [Abi.checkValue, AbiType.headsSize?_eq fun t ht => (h t ht).1]
  exact (reported_require rfl).bind fun _ => reported_checkMembers h

/-- The check gets to every size that it asks for. -/
theorem reported_checkValue (h : ∀ u : AbiType, u.Within t → u.Measured) :
    Reported Fault.stops (Abi.checkValue t region base) := by
  induction t using AbiType.memberInduction generalizing region base with
  | bool | uint | int | address | function | fixedBytes =>
    rw [Abi.checkValue]
    exact (reported_wordAt region 0 base).bind fun _ => reported_require rfl
  | bytes =>
    rw [Abi.checkValue]
    exact (reported_numberAt region 0 base .length).bind fun _ => reported_require rfl
  | string =>
    rw [Abi.checkValue]
    exact (reported_numberAt region 0 base .length).bind fun _ =>
      (reported_require rfl).bind fun _ => reported_require rfl
  | array elem ih =>
    have helem : elem.Measured := h elem (.array .here)
    rw [Abi.checkValue, helem.headSize?_eq]
    refine (reported_numberAt region 0 base .length).bind fun _ => ?_
    refine (reported_require rfl).bind fun _ => (reported_require rfl).bind fun _ => ?_
    exact reported_checkCopies
      (fun _ => reported_checkPlaced fun _ _ => ih fun u hu => h u (.array hu)) _ _
  | fixedArray elem n ih =>
    have hmember : ∀ u ∈ List.replicate n elem,
        u.Measured ∧ ∀ region base, Reported Fault.stops (Abi.checkValue u region base) := by
      intro u hu
      rw [List.eq_of_mem_replicate hu]
      exact ⟨h elem (.fixedArray n .here), fun _ _ => ih fun v hv => h v (.fixedArray n hv)⟩
    rw [checkValue_fixedArray]
    exact reported_tuple hmember
  | tuple members ih =>
    exact reported_tuple fun t ht =>
      ⟨h t (.tuple ht .here), fun _ _ => ih t ht fun u hu => h u (.tuple ht hu)⟩
  | struct name fieldNames members ih =>
    exact reported_tuple fun t ht => ⟨h t (.struct name fieldNames ht .here),
      fun _ _ => ih t ht fun u hu => h u (.struct name fieldNames ht hu)⟩

end Guarded

/-! ## Declared types -/

/-- Where widths can be written, words can be cut at every depth of the call type. -/
theorem hasWidth_of_abiType? {t : Ty} {a u : AbiType} (hsized : t.wellSized = true)
    (h : t.abiType? = some a) (hu : u.Within a) : u.HasWidth := by
  have hsequence {declared : List Ty} {types : List AbiType}
      (ih : ∀ t ∈ declared, ∀ a, t.wellSized = true → t.abiType? = some a → u.Within a →
        u.HasWidth)
      (hsized : ∀ t ∈ declared, t.wellSized = true) (h : Ty.abiTypes? declared = some types) :
      ∀ a ∈ types, u.Within a → u.HasWidth :=
    forall_right_of_forall₂ (Ty.abiTypes?_eq_some h) fun t ht a ha => ih t ht a (hsized t ht) ha
  induction t using Ty.memberInduction generalizing a with
  | uint | bool | address | bytes | string =>
    cases h
    cases hu
    trivial
  | int bits =>
    rw [Ty.wellSized_int] at hsized
    cases h
    cases hu
    exact ⟨by omega, hsized.2.2⟩
  | fixedBytes size =>
    rw [Ty.wellSized_fixedBytes] at hsized
    cases h
    cases hu
    exact hsized.2
  | array elem n ih =>
    rw [Ty.wellSized_array] at hsized
    simp only [Ty.abiType?, Option.map_eq_some_iff] at h
    obtain ⟨e, he, rfl⟩ := h
    cases hu with
    | here => trivial
    | fixedArray _ hu => exact ih hsized he hu
  | dynArray elem bound ih =>
    rw [Ty.wellSized_dynArray] at hsized
    simp only [Ty.abiType?, Option.map_eq_some_iff] at h
    obtain ⟨e, he, rfl⟩ := h
    cases hu with
    | here => trivial
    | array hu => exact ih hsized he hu
  | tuple members ih =>
    simp only [Ty.abiType?, Option.map_eq_some_iff] at h
    obtain ⟨types, htypes, rfl⟩ := h
    have hmembers := hsequence (fun t ht a => ih t ht) (Ty.everywhere_tuple hsized).2 htypes
    cases hu with
    | here => trivial
    | tuple hmem hu => exact hmembers _ hmem hu
  | struct name fields ih =>
    simp only [Ty.abiType?, Option.map_eq_some_iff] at h
    obtain ⟨types, htypes, rfl⟩ := h
    rw [Ty.fieldAbiTypes?_eq] at htypes
    have hmembers := hsequence (fun t ht a => ih t ht) (Ty.everywhere_struct hsized).2 htypes
    cases hu with
    | here => trivial
    | tuple hmem hu => exact hmembers _ hmem hu
  | mapping => cases h

theorem measured_of_addsUp {t : AbiType} (h : ∀ u : AbiType, u.Within t → u.AddsUp) :
    ∀ u : AbiType, u.Within t → u.Measured := by
  intro u hu
  rw [AbiType.Measured, (AbiType.clamped_iff_addsUp.2 h u hu).head]
  rfl

/-- Sizes and positions of the strict check, for types that are declared in text.  The program gets
to the size of the type, and it is the exact one, clamped, at every depth of the type, just if the
clamped sizes of the members of each tuple add up to an addressable number.  The check never counts
past a machine word at another place nor reads outside its region, whatever the data is: done in
machine words it stops where the check meets a sum of sizes that is too large, and gives the same
otherwise.  Where all sizes add up, it does not stop. -/
theorem guarded_check {declared : List Ty} {types : List AbiType}
    (hparse : ∀ t ∈ declared, ∃ text, Ty.parse text = .ok t)
    (htypes : Ty.abiTypes? declared = some types) :
    (∀ t ∈ types, (∀ u : AbiType, u.Within t → u.Clamped) ↔
      ∀ u : AbiType, u.Within t → u.AddsUp) ∧
    ∀ data : List UInt8, data.length < Size.limit →
      Guarded.check types data = Guarded.settle (check types data) ∧
      ((∀ t ∈ types, ∀ u : AbiType, u.Within t → u.AddsUp) →
        Guarded.check types data = .of (check types data)) := by
  refine ⟨fun t _ => AbiType.clamped_iff_addsUp, fun data hdata => ?_⟩
  have hwidth : ∀ t ∈ types, ∀ u : AbiType, u.Within t → u.HasWidth :=
    forall_right_of_forall₂ (Ty.abiTypes?_eq_some htypes) fun t ht a ha u hu => by
      obtain ⟨text, htext⟩ := hparse t ht
      exact hasWidth_of_abiType? (Ty.written_of_parse htext).1 ha hu
  have hsettle : Guarded.check types data = Guarded.settle (check types data) :=
    Guarded.checkHeads_eq (fun t ht => Guarded.faithful_checkValue (hwidth t ht)) data 0 (by omega)
  refine ⟨hsettle, fun hsums => hsettle.trans (Guarded.settle_of_reported ?_)⟩
  refine Guarded.reported_tuple fun t ht => ?_
  have hmeasured := measured_of_addsUp (hsums t ht)
  exact ⟨hmeasured t .here, fun _ _ => Guarded.reported_checkValue hmeasured⟩

def spacious : List Ty := [.tuple [.array (.uint 256) 576460752303423486, .uint 256], .string 5]

/-- The size of the first type is exact, and the heads of both are clamped. -/
theorem guarded_check_spacious :
    (∀ t ∈ spacious, ∃ text, Ty.parse text = .ok t) ∧
      ∃ first second, Ty.abiTypes? spacious = some [first, second] ∧
        first.staticSize? = some first.exactSize ∧ first.exactSize + 31 = Size.limit ∧
        Guarded.check [first, second] (List.replicate 64 0) =
          .of (.error (.shortHead 0 Size.limit 64)) := by
  have hparse : ∀ t ∈ spacious, ∃ text, Ty.parse text = .ok t := by
    simp only [spacious, List.forall_mem_cons]
    exact ⟨⟨"(uint256[576460752303423486], uint256)", by decide +kernel⟩,
      ⟨"String[5]", by decide +kernel⟩, nofun⟩
  obtain ⟨hsizes, hcheck⟩ := guarded_check hparse rfl
  obtain ⟨hsettle, -⟩ := hcheck (List.replicate 64 0) (by decide)
  refine ⟨hparse, _, _, rfl, ?_, by decide, hsettle.trans rfl⟩
  refine ((hsizes _ (List.mem_cons_self ..)).2 (fun u hu => ?_) _ .here).size.trans
    (congrArg some (by decide))
  cases hu with
  | here => decide
  | tuple hmem hu =>
    obtain rfl | rfl := List.mem_pair.1 hmem
    · cases hu with
      | here => decide
      | fixedArray _ hu =>
        cases hu
        decide
    · cases hu
      decide

/-- The first of these arrays takes one byte more than can be addressed. -/
def brimming : Ty := .tuple [.array (.uint 256) 576460752303423488, .array (.uint 256) 2]

/-- The sum of its clamped size and the size of the second array does not fit into a machine word,
and the program stops at it. -/
theorem staticSize?_brimming :
    Ty.parse "(uint256[576460752303423488],uint256[2])" = .ok brimming ∧
      ∃ t, brimming.abiType? = some t ∧ min t.exactSize Size.limit = Size.limit ∧
        t.staticSize? = none ∧ check [t] (List.replicate 32 0) = .error .oversized ∧
        Guarded.check [t] (List.replicate 32 0) = Guarded.stop :=
  ⟨by decide +kernel, _, rfl, by decide, by decide, rfl, rfl⟩

end Abi

end EvmInspect
