import EvmInspect.Proofs.Abi.Extent
/-!
# What is reached in an encoding

The values inside an encoding with the regions they start in, found from the declared types and the
offsets and lengths in the data alone.  An encoding keeps the bounds of its types if none of the
lengths that are reached is larger than declared.
-/

namespace EvmInspect

namespace Ty

def headSize (t : Ty) : Nat := (t.abiType?.map AbiType.headSize).getD 0

def placed (t : Ty) (region : List UInt8) (pos : Nat) : List UInt8 :=
  region.drop (if t.isDynamic then Abi.numberIn region pos else pos)

/-- Greatest length of a value, where the type declares one. -/
def bound? : Ty → Option Nat
  | .bytes bound | .string bound | .dynArray _ bound => some bound
  | _ => none

/-- The sequence in the encoding of a value that starts with the region: types of its members, and
the region of their heads. -/
def contents : Ty → (region : List UInt8) → List Ty × List UInt8
  | .array elem n, region => (List.replicate n elem, region)
  | .dynArray elem _, region => (List.replicate (Abi.numberIn region 0) elem, region.drop 32)
  | .tuple members, region => (members, region)
  | .struct _ fields, region => (fields.map Prod.snd, region)
  | _, region => ([], region)

variable {t : Ty} {a : AbiType}

theorem HasCallType.headSize_eq (h : t.HasCallType a) : t.headSize = a.headSize := by
  simp [headSize, h.abiType?_eq]

theorem HasCallType.placed_dynamic (h : t.HasCallType a) (hd : a.isDynamic = true)
    (region : List UInt8) (pos : Nat) :
    t.placed region pos = region.drop (Abi.numberIn region pos) := by
  rw [placed, isDynamic_eq h.abiType?_eq, if_pos hd]

theorem HasCallType.placed_static (h : t.HasCallType a) (hd : a.isDynamic = false)
    (region : List UInt8) (pos : Nat) : t.placed region pos = region.drop pos := by
  rw [placed, isDynamic_eq h.abiType?_eq, if_neg (by simp [hd])]

end Ty

namespace Abi

/-- In the encoding of a value of the first type, which starts with the first region, there is a
value of the second type, which starts with the second one. -/
inductive Reached : Ty → List UInt8 → Ty → List UInt8 → Prop
  | self (t : Ty) (region : List UInt8) : Reached t region t region
  | member {t m u : Ty} {region body inner : List UInt8} {before after : List Ty}
      (hcontents : t.contents region = (before ++ m :: after, body))
      (hreached : Reached m (m.placed body (before.map Ty.headSize).sum) u inner) :
      Reached t region u inner

/-- No length in the encoding of a value, which starts with the region, is larger than its type
declares. -/
def Kept (t : Ty) (region : List UInt8) : Prop :=
  ∀ u inner, Reached t region u inner → ∀ bound, u.bound? = some bound → numberIn inner 0 ≤ bound

def KeptMembers (members : List Ty) (region : List UInt8) (pos : Nat) : Prop :=
  ∀ before m after, members = before ++ m :: after →
    Kept m (m.placed region (pos + (before.map Ty.headSize).sum))

variable {t : Ty} {region : List UInt8} {pos : Nat}

theorem kept_iff :
    Kept t region ↔
      (∀ bound, t.bound? = some bound → numberIn region 0 ≤ bound) ∧
        KeptMembers (t.contents region).1 (t.contents region).2 0 := by
  constructor
  · intro h
    refine ⟨h t region (.self t region), fun before m after hmembers u inner hreached => ?_⟩
    rw [Nat.zero_add] at hreached
    exact h u inner (.member (Prod.ext hmembers rfl) hreached)
  · rintro ⟨hown, hmembers⟩ u inner hreached
    cases hreached with
    | self => exact hown
    | @member _ m _ _ body _ before after hcontents hreached =>
      rw [hcontents] at hmembers
      have hm := hmembers before m after rfl
      rw [Nat.zero_add] at hm
      exact hm u inner hreached

theorem keptMembers_nil : KeptMembers [] region pos := by
  intro before m after h
  simp at h

theorem keptMembers_cons {ts : List Ty} :
    KeptMembers (t :: ts) region pos ↔
      Kept t (t.placed region pos) ∧ KeptMembers ts region (pos + t.headSize) := by
  constructor
  · intro h
    refine ⟨h [] t ts rfl, fun before m after hts => ?_⟩
    have hm := h (t :: before) m after (by rw [hts, List.cons_append])
    rwa [List.map_cons, List.sum_cons, ← Nat.add_assoc] at hm
  · rintro ⟨hhead, htail⟩ before m after hmembers
    cases before with
    | nil =>
      obtain ⟨rfl, -⟩ := List.cons.inj hmembers
      exact hhead
    | cons b before =>
      obtain ⟨rfl, hts⟩ := List.cons.inj hmembers
      have hm := htail before m after hts
      rwa [Nat.add_assoc, ← List.sum_cons, ← List.map_cons] at hm

/-- A type that declares no length itself and holds nothing keeps its bounds. -/
theorem kept_of_isWord (h : t.isWord = true) : Kept t region := by
  rw [kept_iff]
  cases t <;> simp [Ty.isWord] at h <;> exact ⟨by simp [Ty.bound?], keptMembers_nil⟩

end Abi

end EvmInspect
