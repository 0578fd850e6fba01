import EvmInspect.Proofs.Bytes
import EvmInspect.Proofs.Basic
import EvmInspect.Proofs.Ty.Shape
import Mathlib.Algebra.GroupWithZero.Nat
/-!
# Native layouts as bytes

What the bytes of a value are in the native layout, whatever stands in the room that its type keeps
and that the value does not use.  The room is counted in natural numbers; a size that is clamped at
the largest addressable one is the room if that is addressable.
-/

namespace EvmInspect

/-! ## Room -/

namespace Ty

mutual

/-- Bytes that a type keeps in the native layout. -/
def room : Ty → Nat
  | .uint _ | .int _ | .bool | .address | .fixedBytes _ | .mapping _ _ => 32
  | .bytes bound | .string bound => 32 + (bound + 31) / 32 * 32
  | .array elem n => n * elem.room
  | .dynArray elem bound => 32 + bound * elem.room
  | .tuple members => membersRoom members
  | .struct _ fields => fieldsRoom fields

def membersRoom : List Ty → Nat
  | [] => 0
  | t :: ts => t.room + membersRoom ts

def fieldsRoom : List (String × Ty) → Nat
  | [] => 0
  | f :: fs => f.2.room + fieldsRoom fs

end

theorem fieldsRoom_eq (fields : List (String × Ty)) :
    fieldsRoom fields = membersRoom (fields.map Prod.snd) := by
  induction fields with
  | nil => rfl
  | cons f fs ih => rw [fieldsRoom, ih]; rfl

theorem membersRoom_replicate (n : Nat) (t : Ty) :
    membersRoom (List.replicate n t) = n * t.room := by
  induction n with
  | zero => rw [List.replicate_zero, membersRoom, Nat.zero_mul]
  | succ n ih => rw [List.replicate_succ, membersRoom, ih, Nat.succ_mul, Nat.add_comm]

theorem room_le_membersRoom {members : List Ty} {t : Ty} (h : t ∈ members) :
    t.room ≤ membersRoom members := by
  induction members with
  | nil => simp at h
  | cons u us ih =>
    rw [membersRoom]
    obtain rfl | h := List.mem_cons.1 h
    · omega
    · have := ih h
      omega

theorem mul_min_limit (n m : Nat) :
    min (n * min m Size.limit) Size.limit = min (n * m) Size.limit := by
  rcases Nat.le_total m Size.limit with hm | hm
  · rw [Nat.min_eq_left hm]
  · rw [Nat.min_eq_right hm]
    cases n with
    | zero => rw [Nat.zero_mul, Nat.zero_mul]
    | succ n =>
      have hleft : Size.limit ≤ (n + 1) * Size.limit := Nat.le_mul_of_pos_left _ (Nat.succ_pos n)
      have hright : (n + 1) * Size.limit ≤ (n + 1) * m := Nat.mul_le_mul_left _ hm
      rw [Nat.min_eq_right hleft, Nat.min_eq_right (Nat.le_trans hleft hright)]

theorem fieldsLayoutSize_eq (fields : List (String × Ty)) (start : Nat) :
    fieldsLayoutSize start fields = membersLayoutSize start (fields.map Prod.snd) := by
  induction fields generalizing start with
  | nil => rfl
  | cons f fs ih => rw [fieldsLayoutSize, ih]; rfl

theorem membersRoom_eq_sum (members : List Ty) : membersRoom members = (members.map room).sum := by
  induction members with
  | nil => rfl
  | cons t ts ih => rw [membersRoom, ih, List.map_cons, List.sum_cons]

/-- Sizes that are clamped one by one add up to the clamped sum. -/
theorem membersLayoutSize_eq_sum {size : Ty → Nat} {members : List Ty}
    (h : ∀ t ∈ members, t.layoutSize = min (size t) Size.limit) {start : Nat}
    (hstart : start ≤ Size.limit) :
    membersLayoutSize start members = min (start + (members.map size).sum) Size.limit := by
  induction members generalizing start with
  | nil => rw [membersLayoutSize, List.map_nil, List.sum_nil, Nat.add_zero, Nat.min_eq_left hstart]
  | cons t ts ih =>
    rw [List.forall_mem_cons] at h
    have hnext : Size.add start t.layoutSize ≤ Size.limit := Nat.min_le_right _ _
    rw [membersLayoutSize, ih h.2 hnext, List.map_cons, List.sum_cons, h.1, Size.add]
    omega

theorem layoutSize_eq_min (t : Ty) : t.layoutSize = min t.room Size.limit := by
  induction t using memberInduction with
  | uint | int | bool | address | fixedBytes | mapping => rfl
  | bytes bound | string bound =>
    simp only [layoutSize, room, Size.add, Size.roundUp, Size.mul, Size.wordBytes]
    omega
  | array elem n ih => rw [layoutSize, room, ih, Size.mul, mul_min_limit]
  | dynArray elem bound ih =>
    have hmul := mul_min_limit bound elem.room
    rw [layoutSize, room, ih, Size.mul, hmul, Size.add, Size.wordBytes]
    omega
  | tuple members ih =>
    rw [layoutSize, room, membersLayoutSize_eq_sum ih (Nat.zero_le _), Nat.zero_add,
      membersRoom_eq_sum]
  | struct name fields ih =>
    rw [layoutSize, room, fieldsLayoutSize_eq, fieldsRoom_eq,
      membersLayoutSize_eq_sum ih (Nat.zero_le _), Nat.zero_add, membersRoom_eq_sum]

theorem layoutSize_eq_room {t : Ty} (h : t.room ≤ Size.limit) : t.layoutSize = t.room := by
  rw [layoutSize_eq_min, Nat.min_eq_left h]

end Ty

/-! ## Images -/

namespace Layout

def LaidAll (laid : Value → List UInt8 → Prop) : List Value → List UInt8 → Prop
  | [], image => image = []
  | v :: vs, image => ∃ first rest, image = first ++ rest ∧ laid v first ∧ LaidAll laid vs rest

mutual

/-- The bytes are an image of the value: words with numbers at their end and fixed byte strings at
their start, a word of length before data and elements, and members back to back.  What is left of
the room for data and elements holds anything. -/
def Laid : Ty → Value → List UInt8 → Prop
  | .uint _, .uint word _, image => image = word.toBytes
  | .int _, .int word _, image => image = word.toBytes
  | .bool, .bool b, image => image = bytesOfNat 32 (if b then 1 else 0)
  | .address, .address a, image => image = List.replicate 12 0 ++ a.toBytes
  | .fixedBytes _, .fixedBytes word _, image => image = word.toBytes
  | .bytes bound, .bytes data, image =>
    ∃ filler, image = bytesOfNat 32 data.length ++ (data ++ filler) ∧
      image.length = (Ty.bytes bound).room
  | .string bound, .string s, image =>
    ∃ filler, image = bytesOfNat 32 s.utf8ByteSize ++ (Text.toUtf8 s ++ filler) ∧
      image.length = (Ty.string bound).room
  | .array elem n, .fixedArray items, image => items.length = n ∧ LaidAll (Laid elem) items image
  | .dynArray elem bound, .array items, image =>
    ∃ body filler, image = bytesOfNat 32 items.length ++ (body ++ filler) ∧
      LaidAll (Laid elem) items body ∧ image.length = (Ty.dynArray elem bound).room
  | .tuple members, .tuple items, image => LaidMembers members items image
  | .struct _ fields, .tuple items, image => LaidFields fields items image
  | _, _, _ => False

def LaidMembers : List Ty → List Value → List UInt8 → Prop
  | [], [], image => image = []
  | t :: ts, v :: vs, image =>
    ∃ first rest, image = first ++ rest ∧ Laid t v first ∧ LaidMembers ts vs rest
  | _, _, _ => False

def LaidFields : List (String × Ty) → List Value → List UInt8 → Prop
  | [], [], image => image = []
  | f :: fs, v :: vs, image =>
    ∃ first rest, image = first ++ rest ∧ Laid f.2 v first ∧ LaidFields fs vs rest
  | _, _, _ => False

end

theorem laidFields_iff (fields : List (String × Ty)) (items : List Value) (image : List UInt8) :
    LaidFields fields items image ↔ LaidMembers (fields.map Prod.snd) items image := by
  induction fields generalizing items image with
  | nil => cases items <;> rfl
  | cons f fs ih =>
    cases items with
    | nil => rfl
    | cons v vs => simp only [LaidFields, List.map_cons, LaidMembers, ih]

theorem laidMembers_replicate (t : Ty) (items : List Value) (image : List UInt8) :
    LaidMembers (List.replicate items.length t) items image ↔ LaidAll (Laid t) items image := by
  induction items generalizing image with
  | nil => rfl
  | cons v vs ih => simp only [List.length_cons, List.replicate_succ, LaidMembers, LaidAll, ih]

theorem length_of_laidMembers {members : List Ty}
    (h : ∀ t ∈ members, ∀ v image, Laid t v image → image.length = t.room) {items : List Value}
    {image : List UInt8} (hlaid : LaidMembers members items image) :
    image.length = Ty.membersRoom members := by
  induction members generalizing items image with
  | nil =>
    cases items with
    | nil => rw [show image = [] from hlaid]; rfl
    | cons => exact hlaid.elim
  | cons t ts ih =>
    cases items with
    | nil => exact hlaid.elim
    | cons v vs =>
      obtain ⟨first, rest, rfl, hfirst, hrest⟩ := hlaid
      rw [List.forall_mem_cons] at h
      rw [List.length_append, h.1 v first hfirst, ih h.2 hrest, Ty.membersRoom]

theorem length_of_laid {t : Ty} {v : Value} {image : List UInt8} (h : Laid t v image) :
    image.length = t.room := by
  induction t using Ty.memberInduction generalizing v image with
  | uint | int | fixedBytes =>
    cases v <;> simp only [Laid] at h
    rw [h, Word.length_toBytes, Ty.room]
  | bool =>
    cases v <;> simp only [Laid] at h
    rw [h, length_bytesOfNat, Ty.room]
  | address =>
    cases v <;> simp only [Laid] at h
    rw [h, List.length_append, List.length_replicate, Address.length_toBytes, Ty.room]
  | bytes | string =>
    cases v <;> simp only [Laid] at h
    obtain ⟨filler, -, hlen⟩ := h
    exact hlen
  | array elem n ih =>
    cases v <;> simp only [Laid] at h
    obtain ⟨rfl, h⟩ := h
    rw [← laidMembers_replicate] at h
    rw [length_of_laidMembers (fun t ht v image hv => ?_) h, Ty.membersRoom_replicate, Ty.room]
    rw [List.eq_of_mem_replicate ht] at hv ⊢
    exact ih hv
  | dynArray elem bound ih =>
    cases v <;> simp only [Laid] at h
    obtain ⟨body, filler, -, -, hlen⟩ := h
    exact hlen
  | tuple members ih =>
    cases v <;> simp only [Laid] at h
    rw [length_of_laidMembers (fun t ht v image hv => ih t ht hv) h, Ty.room]
  | struct name fields ih =>
    cases v <;> simp only [Laid] at h
    rw [laidFields_iff] at h
    rw [length_of_laidMembers (fun t ht v image hv => ih t ht hv) h, Ty.room, Ty.fieldsRoom_eq]
  | mapping => cases v <;> simp only [Laid] at h

end Layout

end EvmInspect
