import EvmInspect.Proofs.Abi.Sizes
import EvmInspect.Proofs.Layout.Image
/-!
# Sizes of types without a limit

Three conventions meet in the sizes of static types: the size of an array of fixed length is clamped
at the largest addressable number, the sizes of the members of a tuple are added up in one machine
word, where the program stops if they are too large, and heads are clamped again.  They give the
clamped exact size at every depth of a type just if the clamped exact sizes of the members of each
tuple add up to an addressable number.
-/

namespace EvmInspect.AbiType

mutual

/-- Bytes of the encoding of a static type, without a limit. -/
def exactSize : AbiType → Nat
  | .fixedArray elem n => n * elem.exactSize
  | .tuple members | .struct _ _ members => exactSizes members
  | _ => Size.wordBytes

def exactSizes : List AbiType → Nat
  | [] => 0
  | t :: ts => t.exactSize + exactSizes ts

end

/-- Bytes that a value of the type takes at its place in a sequence, without a limit. -/
def exactHead (t : AbiType) : Nat := if t.isDynamic then Size.wordBytes else t.exactSize

/-- Members of which the sizes are added up for the size of the type. -/
def members : AbiType → List AbiType
  | .tuple members | .struct _ _ members => members
  | _ => []

/-- The sizes of the members, each clamped, add up to an addressable number. -/
def AddsUp (t : AbiType) : Prop :=
  (t.members.map fun m => min m.exactSize Size.limit).sum ≤ Size.limit

instance : DecidablePred AddsUp := fun t =>
  inferInstanceAs (Decidable ((t.members.map fun m => min m.exactSize Size.limit).sum ≤ Size.limit))

/-- The program gets to the size and the head of the type, and they are the exact ones, clamped. -/
structure Clamped (t : AbiType) : Prop where
  size : t.staticSize? = some (min t.exactSize Size.limit)
  head : t.headSize? = some (min t.exactHead Size.limit)

/-! ## Types in types -/

/-- A type is the other one or stands at some depth in it. -/
inductive Within (u : AbiType) : AbiType → Prop
  | here : Within u u
  | array {elem : AbiType} (h : Within u elem) : Within u (.array elem)
  | fixedArray {elem : AbiType} (n : Nat) (h : Within u elem) : Within u (.fixedArray elem n)
  | tuple {t : AbiType} {members : List AbiType} (hmem : t ∈ members) (h : Within u t) :
      Within u (.tuple members)
  | struct {t : AbiType} {members : List AbiType} (name : String) (fieldNames : List String)
      (hmem : t ∈ members) (h : Within u t) : Within u (.struct name fieldNames members)

variable {t u v : AbiType}

theorem Within.trans (hu : v.Within u) (ht : u.Within t) : v.Within t := by
  induction ht with
  | here => exact hu
  | array _ ih => exact .array ih
  | fixedArray n _ ih => exact .fixedArray n ih
  | tuple hmem _ ih => exact .tuple hmem ih
  | struct name fieldNames hmem _ ih => exact .struct name fieldNames hmem ih

theorem within_of_mem_members (h : u ∈ t.members) : u.Within t := by
  cases t with
  | tuple => exact .tuple h .here
  | struct name fieldNames => exact .struct name fieldNames h .here
  | _ => simp [members] at h

/-! ## Sums of sizes -/

theorem exactSizes_eq (ts : List AbiType) : exactSizes ts = (ts.map exactSize).sum := by
  induction ts with
  | nil => rfl
  | cons t ts ih => rw [exactSizes, ih, List.map_cons, List.sum_cons]

theorem min_sum_min_limit (sizes : List Nat) :
    min (sizes.map (min · Size.limit)).sum Size.limit = min sizes.sum Size.limit := by
  induction sizes with
  | nil => rfl
  | cons n ns ih =>
    rw [List.map_cons, List.sum_cons, List.sum_cons]
    omega

/-- Clamped sizes that add up to an addressable number are added up, and only those are. -/
theorem staticSizes?_eq_some_iff {ts : List AbiType}
    (h : ∀ t ∈ ts, t.staticSize? = some (min t.exactSize Size.limit)) :
    staticSizes? ts = some (min (exactSizes ts) Size.limit) ↔
      (ts.map fun t => min t.exactSize Size.limit).sum ≤ Size.limit := by
  have hall : ∀ t ∈ ts, t.staticSize?.isSome = true := fun t ht => by rw [h t ht]; rfl
  have hsizes : staticSizes ts = (ts.map fun t => min t.exactSize Size.limit).sum := by
    rw [staticSizes_eq_sum]
    exact congrArg List.sum (List.map_congr_left fun t ht => staticSize_eq (h t ht))
  constructor
  · intro hsome
    rw [← hsizes]
    exact (isSome_staticSizes?.1 (by rw [hsome]; rfl)).2
  · intro hsum
    have hclamp := min_sum_min_limit (ts.map exactSize)
    rw [List.map_map] at hclamp
    obtain ⟨n, hn⟩ := Option.isSome_iff_exists.1 (isSome_staticSizes?.2 ⟨hall, hsizes ▸ hsum⟩)
    have hexact : n = min (exactSizes ts) Size.limit :=
      calc n = staticSizes ts := (staticSizes_of_forall (fun t _ n => staticSize_eq) hn).symm
        _ = (ts.map fun t => min t.exactSize Size.limit).sum := hsizes
        _ = min (ts.map fun t => min t.exactSize Size.limit).sum Size.limit :=
            (Nat.min_eq_left hsum).symm
        _ = min (ts.map exactSize).sum Size.limit := hclamp
        _ = min (exactSizes ts) Size.limit := by rw [exactSizes_eq]
    rw [hn, hexact]

/-! ## Sizes at every depth -/

theorem staticSize?_eq_min (h : ∀ u : AbiType, u.Within t → u.AddsUp) :
    t.staticSize? = some (min t.exactSize Size.limit) := by
  induction t using memberInduction with
  | bool | int | uint | fixedBytes | address | function | bytes | string | array => rfl
  | fixedArray elem n ih =>
    rw [staticSize?, exactSize, ih fun v hv => h v (.fixedArray n hv), Option.map_some, Size.mul,
      Ty.mul_min_limit]
  | tuple members ih =>
    have hmembers := fun u hu => ih u hu fun v hv => h v (.tuple hu hv)
    exact (staticSizes?_eq_some_iff hmembers).2 (h _ .here)
  | struct name fieldNames members ih =>
    have hmembers := fun u hu => ih u hu fun v hv => h v (.struct name fieldNames hu hv)
    exact (staticSizes?_eq_some_iff hmembers).2 (h _ .here)

theorem headSize?_eq_min (h : t.staticSize? = some (min t.exactSize Size.limit)) :
    t.headSize? = some (min t.exactHead Size.limit) := by
  unfold headSize? exactHead
  split
  · rfl
  · exact h

/-- Sizes are the clamped exact ones at every depth just if the members' sizes add up at every
depth. -/
theorem clamped_iff_addsUp :
    (∀ u : AbiType, u.Within t → u.Clamped) ↔ ∀ u : AbiType, u.Within t → u.AddsUp := by
  constructor
  · intro h u hu
    have hmembers : ∀ v ∈ u.members, v.staticSize? = some (min v.exactSize Size.limit) :=
      fun v hv => (h v ((within_of_mem_members hv).trans hu)).size
    have hsize := (h u hu).size
    cases u with
    | tuple members | struct _ _ members => exact (staticSizes?_eq_some_iff hmembers).1 hsize
    | _ => exact Nat.zero_le _
  · intro h u hu
    have hsize : u.staticSize? = some (min u.exactSize Size.limit) :=
      staticSize?_eq_min fun v hv => h v (hv.trans hu)
    exact ⟨hsize, headSize?_eq_min hsize⟩

end EvmInspect.AbiType
