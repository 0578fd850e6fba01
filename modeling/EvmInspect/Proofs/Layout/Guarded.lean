import EvmInspect.Proofs.Abi.Guarded
import EvmInspect.Proofs.Abi.InPlace
import EvmInspect.Proofs.Layout.Legal
/-!
# Widths and the words cut by them

The check of values and the decoder once more, as programs that stop where a range is cut out of a
word that does not reach so far, a difference is negative, or bytes are taken for a word or an
address and are too many or too few.  Which of that a type leads to hangs on the widths in it alone:
with the widths that type text can write, at whatever depth, none of the programs stops, and each
gives what it gives without such care.
-/

namespace EvmInspect

namespace Guarded

def diff? (a b : Nat) : Option Nat := if b ≤ a then some (a - b) else none

def slice? (bytes : List UInt8) (start last : Nat) : Option (List UInt8) :=
  if start ≤ last ∧ last ≤ bytes.length then some ((bytes.drop start).take (last - start))
  else none

def word? (bytes : List UInt8) : Option Word :=
  if bytes.length = 32 then some (Word.ofBytes bytes) else none

def address? (bytes : List UInt8) : Option Address :=
  if bytes.length = 20 then some (Address.ofBytes bytes) else none

/-! ## The check of values -/

def checkSigned (word : Word) (bits : Nat) : Guarded Ty.Illegal Unit :=
  if 256 ≤ bits then of (.ok ())
  else do
    let distance ← diff? bits 1
    let high := word.sshiftRight distance
    if high == 0 || high == BitVec.allOnes 256 then of (.ok ())
    else of (.error (.signedRange word bits))

def checkEach (check : Value → Guarded Ty.Illegal Unit) : List Value → Guarded Ty.Illegal Unit
  | [] => of (.ok ())
  | v :: vs => do
    check v
    checkEach check vs

mutual

/-- The value is legal for the type.  Only the rows that cut a word, and those with values inside,
differ from the plain check. -/
def check : Ty → Value → Guarded Ty.Illegal Unit
  | .int bits, .int word _ => checkSigned word bits
  | .fixedBytes n, .fixedBytes word size =>
    if size ≠ n then of (.error (.fixedBytes n))
    else do
      let padding ← slice? word.toBytes n 32
      if padding.all (· == 0) then of (.ok ()) else of (.error (.fixedBytes n))
  | .array elem n, .fixedArray items =>
    if items.length = n then checkEach (check elem) items
    else of (.error (.elementCount (.array elem n) n items.length))
  | .dynArray elem bound, .array items =>
    if items.length ≤ bound then checkEach (check elem) items
    else of (.error (.tooLong items.length (.dynArray elem bound)))
  | .tuple members, .tuple items =>
    if members.length = items.length then checkMembers members items
    else of (.error (.memberCount (.tuple members) members.length items.length))
  | .struct name fields, .tuple items =>
    if fields.length = items.length then checkFields fields items
    else of (.error (.memberCount (.struct name fields) fields.length items.length))
  | ty, value => of (ty.check value)

def checkMembers : List Ty → List Value → Guarded Ty.Illegal Unit
  | t :: ts, v :: vs => do
    check t v
    checkMembers ts vs
  | _, _ => of (.ok ())

def checkFields : List (String × Ty) → List Value → Guarded Ty.Illegal Unit
  | f :: fs, v :: vs => do
    check f.2 v
    checkFields fs vs
  | _, _ => of (.ok ())

end

/-! ## The decoder -/

open Layout

def wordAt (src : Source) (offset : Nat) : Guarded Layout.Fault Word := do
  let bytes ← of (src offset 32)
  word? bytes

def lengthAt (ty : Ty) (bound : Nat) (src : Source) (offset : Nat) :
    Guarded Layout.Fault Nat := do
  let word ← wordAt src offset
  if word.toNat ≤ Size.limit ∧ word.toNat ≤ bound then of (.ok word.toNat)
  else of (.error (.lengthExceeded ty word))

def decodeCopies (decode : Nat → Guarded Layout.Fault Value) (size : Nat) :
    (n offset : Nat) → Guarded Layout.Fault (List Value)
  | 0, _ => of (.ok [])
  | n + 1, offset => do
    let v ← decode offset
    let next ← of (advance offset size)
    let vs ← decodeCopies decode size n next
    return v :: vs

mutual

def decode (src : Source) : Ty → (offset : Nat) → Guarded Layout.Fault Value
  | .uint bits, offset => do
    let word ← wordAt src offset
    of (checked (.uint bits) (Ty.checkUnsigned word bits) (.uint word bits))
  | .int bits, offset => do
    let word ← wordAt src offset
    let result ← (checkSigned word bits).run
    of (checked (.int bits) result (.int word bits))
  | .bool, offset => do
    let word ← wordAt src offset
    if word.toNat ≤ 1 then return .bool (word == 1) else of (.error (.badBool word))
  | .address, offset => do
    let word ← wordAt src offset
    let padding ← slice? word.toBytes 0 12
    if padding.all (· == 0) then do
      let low ← slice? word.toBytes 12 32
      let a ← address? low
      return .address a
    else of (.error (.dirtyAddress word))
  | .fixedBytes size, offset => do
    let word ← wordAt src offset
    let padding ← slice? word.toBytes size 32
    if padding.all (· == 0) then return .fixedBytes word size
    else of (.error (.dirtyFixedBytes size word))
  | .bytes bound, offset => do
    let length ← lengthAt (.bytes bound) bound src offset
    let start ← of (advance offset 32)
    return .bytes (← of (src start length))
  | .string bound, offset => do
    let length ← lengthAt (.string bound) bound src offset
    let start ← of (advance offset 32)
    let data ← of (src start length)
    match Text.ofUtf8? data with
    | some s => return .string s
    | none => of (.error .notText)
  | .array elem n, offset => do
    return .fixedArray (← decodeCopies (decode src elem) elem.layoutSize n offset)
  | .dynArray elem bound, offset => do
    let length ← lengthAt (.dynArray elem bound) bound src offset
    let start ← of (advance offset 32)
    return .array (← decodeCopies (decode src elem) elem.layoutSize length start)
  | .tuple members, offset => return .tuple (← decodeMembers src members offset)
  | .struct _ fields, offset => return .tuple (← decodeFields src fields offset)
  | .mapping key value, _ => of (.error (.unsupported (.mapping key value)))

def decodeMembers (src : Source) : List Ty → (offset : Nat) → Guarded Layout.Fault (List Value)
  | [], _ => of (.ok [])
  | t :: ts, offset => do
    let v ← decode src t offset
    let next ← of (advance offset t.layoutSize)
    let vs ← decodeMembers src ts next
    return v :: vs

def decodeFields (src : Source) :
    List (String × Ty) → (offset : Nat) → Guarded Layout.Fault (List Value)
  | [], _ => of (.ok [])
  | f :: fs, offset => do
    let v ← decode src f.2 offset
    let next ← of (advance offset f.2.layoutSize)
    let vs ← decodeFields src fs next
    return v :: vs

end

/-! ## Steps -/

theorem slice?_eq {bytes : List UInt8} {start last : Nat} (h : start ≤ last)
    (hlast : last ≤ bytes.length) :
    slice? bytes start last = some ((bytes.drop start).take (last - start)) :=
  if_pos ⟨h, hlast⟩

theorem slice?_to_end {word : Word} {start : Nat} (h : start ≤ 32) :
    slice? word.toBytes start 32 = some (word.toBytes.drop start) := by
  rw [slice?_eq h (by simp), List.take_of_length_le (by simp)]

theorem address?_drop (word : Word) :
    address? (word.toBytes.drop 12) = some (BitVec.ofNat 160 word.toNat) := by
  rw [address?, if_pos (by simp), Abi.ofBytes_drop_toBytes]

theorem checkSigned_eq {word : Word} {bits : Nat} (h : 1 ≤ bits) :
    checkSigned word bits = of (Ty.checkSigned word bits) := by
  rw [checkSigned, Ty.checkSigned, Word.fitsSigned]
  by_cases hwide : 256 ≤ bits
  · rw [if_pos hwide, decide_eq_true hwide, Bool.true_or, if_pos rfl]
  · rw [if_neg hwide, decide_eq_false hwide, Bool.false_or, diff?, if_pos h]
    exact of_ite _ _

/-! ## Values -/

theorem checkEach_eq {check : Value → Guarded Ty.Illegal Unit}
    {spec : Value → Except Ty.Illegal Unit} (h : ∀ v, check v = of (spec v)) (items : List Value) :
    checkEach check items = of (Ty.checkEach spec items) := by
  induction items with
  | nil => rfl
  | cons v vs ih =>
    rw [checkEach, Ty.checkEach, h v]
    cases spec v with
    | error e => rfl
    | ok => exact ih

theorem checkMembers_eq {members : List Ty} (h : ∀ t ∈ members, ∀ v, check t v = of (t.check v))
    (items : List Value) : checkMembers members items = of (Ty.checkMembers members items) := by
  induction members generalizing items with
  | nil => cases items <;> rfl
  | cons t ts ih =>
    rw [List.forall_mem_cons] at h
    cases items with
    | nil => rfl
    | cons v vs =>
      rw [checkMembers, Ty.checkMembers, h.1 v]
      cases t.check v with
      | error e => rfl
      | ok => exact ih h.2 vs

theorem checkFields_eq (fields : List (String × Ty)) (items : List Value) :
    checkFields fields items = checkMembers (fields.map Prod.snd) items := by
  induction fields generalizing items with
  | nil => cases items <;> rfl
  | cons f fs ih =>
    cases items with
    | nil => rfl
    | cons v vs =>
      rw [checkFields, List.map_cons, checkMembers]
      simp only [ih]

theorem check_eq {t : Ty} (hsized : t.wellSized = true) (v : Value) :
    check t v = of (t.check v) := by
  induction t using Ty.memberInduction generalizing v with
  | uint | bool | address | bytes | string | mapping => cases v <;> rfl
  | int bits =>
    cases v with
    | int word width => exact checkSigned_eq (Ty.wellSized_int.1 hsized).2.1
    | _ => rfl
  | fixedBytes n =>
    cases v with
    | fixedBytes word size =>
      rw [check, Ty.check]
      by_cases hsize : size = n
      · rw [if_neg (not_not.2 hsize), slice?_to_end (Ty.wellSized_fixedBytes.1 hsized).2]
        simp only [hsize, true_and]
        exact of_ite _ _
      · rw [if_pos hsize, if_neg fun h => hsize h.1]
    | _ => rfl
  | array elem n ih =>
    cases v with
    | fixedArray items =>
      rw [check, Ty.check, checkEach_eq (ih (Ty.wellSized_array.1 hsized))]
      exact of_ite _ _
    | _ => rfl
  | dynArray elem bound ih =>
    cases v with
    | array items =>
      rw [check, Ty.check, checkEach_eq (ih (Ty.wellSized_dynArray.1 hsized))]
      exact of_ite _ _
    | _ => rfl
  | tuple members ih =>
    cases v with
    | tuple items =>
      rw [check, Ty.check,
        checkMembers_eq fun t ht => ih t ht ((Ty.everywhere_tuple hsized).2 t ht)]
      exact of_ite _ _
    | _ => rfl
  | struct name fields ih =>
    cases v with
    | tuple items =>
      rw [check, Ty.check, checkFields_eq, Ty.checkFields_eq,
        checkMembers_eq fun t ht => ih t ht ((Ty.everywhere_struct hsized).2 t ht)]
      exact of_ite _ _
    | _ => rfl

/-! ## Layouts -/

variable {src : Source} {offset : Nat}

theorem wordAt_eq (hsrc : src.Exact) : wordAt src offset = of (Layout.wordAt src offset) := by
  rw [wordAt, Layout.wordAt]
  cases h : src offset 32 with
  | error e => rfl
  | ok bytes =>
    change (liftM (word? bytes) : Guarded Layout.Fault Word) = _
    rw [word?, if_pos (hsrc offset 32 bytes h)]
    rfl

theorem lengthAt_eq (hsrc : src.Exact) (ty : Ty) (bound : Nat) :
    lengthAt ty bound src offset = of (Layout.lengthAt ty bound src offset) := by
  rw [lengthAt, wordAt_eq hsrc]
  exact bind_of fun word _ => of_ite _ _

theorem decodeMembers_eq {members : List Ty}
    (h : ∀ t ∈ members, ∀ offset, decode src t offset = of (Layout.decode src t offset)) :
    decodeMembers src members offset = of (Layout.decodeMembers src members offset) := by
  induction members generalizing offset with
  | nil => rfl
  | cons t ts ih =>
    rw [List.forall_mem_cons] at h
    rw [decodeMembers, Layout.decodeMembers, h.1]
    refine bind_of fun v _ => bind_of fun next _ => ?_
    rw [ih h.2]
    exact bind_of fun vs _ => rfl

theorem decodeFields_eq (fields : List (String × Ty)) :
    decodeFields src fields offset = decodeMembers src (fields.map Prod.snd) offset := by
  induction fields generalizing offset with
  | nil => rfl
  | cons f fs ih =>
    rw [decodeFields, List.map_cons, decodeMembers]
    simp only [ih]

theorem decodeCopies_eq {decode : Nat → Guarded Layout.Fault Value}
    {spec : Nat → Except Layout.Fault Value} {size n : Nat}
    (h : ∀ offset, decode offset = of (spec offset)) :
    decodeCopies decode size n offset = of (Layout.decodeCopies spec size n offset) := by
  induction n generalizing offset with
  | zero => rfl
  | succ n ih =>
    rw [decodeCopies, Layout.decodeCopies, h]
    refine bind_of fun v _ => bind_of fun next _ => ?_
    rw [ih]
    exact bind_of fun vs _ => rfl

theorem decode_eq (hsrc : src.Exact) {t : Ty} (hsized : t.wellSized = true) (offset : Nat) :
    decode src t offset = of (Layout.decode src t offset) := by
  induction t using Ty.memberInduction generalizing offset with
  | uint bits =>
    rw [decode, Layout.decode, wordAt_eq hsrc]
    exact bind_of fun word _ => rfl
  | int bits =>
    rw [decode, Layout.decode, wordAt_eq hsrc]
    refine bind_of fun word _ => ?_
    rw [checkSigned_eq (Ty.wellSized_int.1 hsized).2.1]
    rfl
  | bool =>
    rw [decode, Layout.decode, wordAt_eq hsrc]
    exact bind_of fun word _ => of_ite _ _
  | address =>
    rw [decode, Layout.decode, wordAt_eq hsrc]
    refine bind_of fun word _ => ?_
    rw [slice?_eq (Nat.zero_le _) (by simp), some_bind, slice?_to_end (by decide), some_bind,
      address?_drop, some_bind]
    by_cases hclean : word.toNat >>> 160 = 0
    · rw [if_pos hclean]
      exact if_pos ((Abi.allZero_take_toBytes word).2 hclean)
    · rw [if_neg hclean]
      exact if_neg fun h => hclean ((Abi.allZero_take_toBytes word).1 h)
  | fixedBytes size =>
    rw [decode, Layout.decode, wordAt_eq hsrc]
    refine bind_of fun word _ => ?_
    rw [slice?_to_end (Ty.wellSized_fixedBytes.1 hsized).2]
    exact of_ite _ _
  | bytes bound =>
    rw [decode, Layout.decode, lengthAt_eq hsrc]
    exact bind_of fun length _ => bind_of fun start _ => bind_of fun data _ => rfl
  | string bound =>
    rw [decode, Layout.decode, lengthAt_eq hsrc]
    refine bind_of fun length _ => bind_of fun start _ => bind_of fun data _ => ?_
    cases Text.ofUtf8? data <;> rfl
  | array elem n ih =>
    rw [decode, Layout.decode, decodeCopies_eq (ih (Ty.wellSized_array.1 hsized))]
    exact bind_of fun items _ => rfl
  | dynArray elem bound ih =>
    rw [decode, Layout.decode, lengthAt_eq hsrc]
    refine bind_of fun length _ => bind_of fun start _ => ?_
    rw [decodeCopies_eq (ih (Ty.wellSized_dynArray.1 hsized))]
    exact bind_of fun items _ => rfl
  | tuple members ih =>
    rw [decode, Layout.decode,
      decodeMembers_eq fun t ht => ih t ht ((Ty.everywhere_tuple hsized).2 t ht)]
    exact bind_of fun items _ => rfl
  | struct name fields ih =>
    rw [decode, Layout.decode, decodeFields_eq, Layout.decodeFields_eq,
      decodeMembers_eq fun t ht => ih t ht ((Ty.everywhere_struct hsized).2 t ht)]
    exact bind_of fun items _ => rfl
  | mapping key value => rfl

/-! ## Types that are written in text -/

/-- The widths in a type that is read from text are in range at every depth.  So no program that
goes by the type cuts a word where it has no bytes or counts down from no bits: not the check of a
value, nor that of a signed integer, nor the decoder on bytes, nor the strict check of bytes by the
call type, which end at an addressable position, as bytes in memory do.  Each gives what it gives
without such care, and none of them stops but the last, where the check meets a sum of sizes that is
too large. -/
theorem guarded_of_parse {text : String} {t : Ty} (h : Ty.parse text = .ok t) :
    ((∀ bits, (Ty.uint bits).Within t ∨ (Ty.int bits).Within t →
        8 ∣ bits ∧ 8 ≤ bits ∧ bits ≤ 256) ∧
      ∀ size, (Ty.fixedBytes size).Within t → 1 ≤ size ∧ size ≤ 32) ∧
    (∀ v, check t v = of (t.check v)) ∧
    (∀ bits, (Ty.int bits).Within t → ∀ word,
      checkSigned word bits = of (Ty.checkSigned word bits)) ∧
    (∀ data offset,
      decode (.ofBytes data) t offset = of (Layout.decode (.ofBytes data) t offset)) ∧
    ∀ a, t.abiType? = some a → ∀ data base, base + data.length < Size.limit →
      Abi.Guarded.checkValue a data base = Abi.Guarded.settle (Abi.checkValue a data base) := by
  have hsized : t.wellSized = true := (Ty.written_of_parse h).1
  have hinteger : ∀ bits, (Ty.uint bits).Within t ∨ (Ty.int bits).Within t →
      8 ∣ bits ∧ 8 ≤ bits ∧ bits ≤ 256 := by
    intro bits hbits
    have hwidth : 8 ∣ bits ∧ 1 ≤ bits ∧ bits ≤ 256 := by
      rcases hbits with hbits | hbits <;> exact of_decide_eq_true (hbits.of_everywhere hsized)
    exact ⟨hwidth.1, by omega, hwidth.2.2⟩
  refine ⟨⟨hinteger, fun size hsize => of_decide_eq_true (hsize.of_everywhere hsized)⟩,
    check_eq hsized, fun bits hbits word => checkSigned_eq ?_,
    fun data => decode_eq (Source.exact_ofBytes data) hsized,
    fun a ha data => ?_⟩
  · obtain ⟨-, hpos, -⟩ := hinteger bits (.inr hbits)
    omega
  · exact Abi.Guarded.faithful_checkValue (fun u => Abi.hasWidth_of_abiType? hsized ha) data

def quote : Ty := .struct "Quote" [("rates", .dynArray (.int 8) 3), ("tag", .fixedBytes 1)]

/-- The one number is too large for its type. -/
theorem guarded_of_parse_quote :
    Ty.parse "Quote\x7brates: DynArray[int8, 3], tag: bytes1\x7d" = .ok quote ∧
      (Ty.int 8).Within quote ∧ checkSigned 200 8 = of (.error (.signedRange 200 8)) ∧
      check quote (.tuple [.array [.int 200 8], .fixedBytes 0 1]) =
        of (.error (.signedRange 200 8)) ∧
      decode (.ofBytes (bytesOfNat 32 1 ++ bytesOfNat 32 200)) quote 0 =
        of (.error (.illegal (.int 8) (.signedRange 200 8))) ∧
      ∃ a, quote.abiType? = some a ∧
        Abi.Guarded.checkValue a
          (bytesOfNat 32 64 ++ bytesOfNat 32 0 ++ bytesOfNat 32 1 ++ bytesOfNat 32 200) 0 =
        of (.error (.signedRange 96 8)) := by
  have hparse : Ty.parse "Quote\x7brates: DynArray[int8, 3], tag: bytes1\x7d" = .ok quote := by
    decide +kernel
  have hrate : (Ty.int 8).Within quote :=
    .struct "Quote" (List.mem_cons_self ..) (.dynArray 3 .here)
  have hrange : Abi.checkValue (.tuple [.array (.int 8), .fixedBytes 1])
      (bytesOfNat 32 64 ++ bytesOfNat 32 0 ++ bytesOfNat 32 1 ++ bytesOfNat 32 200) 0 =
      .error (.signedRange 96 8) := by decide +kernel
  obtain ⟨-, hcheck, hsigned, hdecode, hstrict⟩ := guarded_of_parse hparse
  refine ⟨hparse, hrate, (hsigned 8 hrate 200).trans ?_, (hcheck _).trans ?_,
    (hdecode _ 0).trans ?_, _, rfl, (hstrict _ rfl _ 0 (by simp [Size.limit])).trans ?_⟩
  · rfl
  · rfl
  · exact congrArg of (by decide +kernel)
  · exact congrArg Abi.Guarded.settle hrange

/-- Widths that no text writes make the programs stop. -/
example : checkSigned 0 0 = ExceptT.mk none ∧
    check (.fixedBytes 33) (.fixedBytes 0 33) = ExceptT.mk none :=
  ⟨rfl, rfl⟩

end Guarded

end EvmInspect
