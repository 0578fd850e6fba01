import EvmInspect.Size
/-!
# Declared types

The types that a contract's source declares.  They say more than the types of the call interface:
byte strings and dynamic arrays have a greatest length, structs name their members, and mappings,
which live in storage only, are types too.
-/

namespace EvmInspect

inductive Ty where
  | uint (bits : Nat)
  | int (bits : Nat)
  | bool
  | address
  /-- Exactly `size` bytes, from 1 to 32. -/
  | fixedBytes (size : Nat)
  | bytes (bound : Nat)
  /-- Text of at most `bound` bytes. -/
  | string (bound : Nat)
  | array (elem : Ty) (length : Nat)
  | dynArray (elem : Ty) (bound : Nat)
  | tuple (members : List Ty)
  | struct (name : String) (fields : List (String × Ty))
  /-- Storage lookup from keys to values. -/
  | mapping (key value : Ty)
deriving Repr, Inhabited

namespace Ty

mutual

/-- Equality of declared types, by recursion on the first. -/
def same : Ty → Ty → Bool
  | .uint a, .uint b => a == b
  | .int a, .int b => a == b
  | .bool, .bool => true
  | .address, .address => true
  | .fixedBytes a, .fixedBytes b => a == b
  | .bytes a, .bytes b => a == b
  | .string a, .string b => a == b
  | .array s m, .array t n => s.same t && m == n
  | .dynArray s m, .dynArray t n => s.same t && m == n
  | .tuple ss, .tuple ts => sameMembers ss ts
  | .struct a ss, .struct b ts => a == b && sameFields ss ts
  | .mapping k v, .mapping k' v' => k.same k' && v.same v'
  | _, _ => false

def sameMembers : List Ty → List Ty → Bool
  | [], [] => true
  | s :: ss, t :: ts => s.same t && sameMembers ss ts
  | _, _ => false

def sameFields : List (String × Ty) → List (String × Ty) → Bool
  | [], [] => true
  | s :: ss, t :: ts => s.1 == t.1 && s.2.same t.2 && sameFields ss ts
  | _, _ => false

end

mutual

theorem same_self : ∀ t : Ty, t.same t = true
  | .uint _ | .int _ | .bool | .address | .fixedBytes _ | .bytes _ | .string _ => by simp [same]
  | .array t _ | .dynArray t _ => by simp [same, same_self t]
  | .tuple ts => by simp [same, sameMembers_self ts]
  | .struct _ fs => by simp [same, sameFields_self fs]
  | .mapping k v => by simp [same, same_self k, same_self v]

theorem sameMembers_self : ∀ ts : List Ty, sameMembers ts ts = true
  | [] => rfl
  | t :: ts => by simp [sameMembers, same_self t, sameMembers_self ts]

theorem sameFields_self : ∀ fs : List (String × Ty), sameFields fs fs = true
  | [] => rfl
  | f :: fs => by simp [sameFields, same_self f.2, sameFields_self fs]

end

mutual

theorem eq_of_same : ∀ {s t : Ty}, s.same t = true → s = t
  | .uint _, .uint _, h | .int _, .int _, h | .fixedBytes _, .fixedBytes _, h
  | .bytes _, .bytes _, h | .string _, .string _, h => by simpa [same] using h
  | .bool, .bool, _ | .address, .address, _ => rfl
  | .array _ _, .array _ _, h | .dynArray _ _, .dynArray _ _, h => by
    simp only [same, Bool.and_eq_true, beq_iff_eq] at h
    simp [eq_of_same h.1, h.2]
  | .tuple _, .tuple _, h => by
    simp only [same] at h
    simp [eq_of_sameMembers h]
  | .struct _ _, .struct _ _, h => by
    simp only [same, Bool.and_eq_true, beq_iff_eq] at h
    simp [h.1, eq_of_sameFields h.2]
  | .mapping _ _, .mapping _ _, h => by
    simp only [same, Bool.and_eq_true] at h
    simp [eq_of_same h.1, eq_of_same h.2]

theorem eq_of_sameMembers : ∀ {ss ts : List Ty}, sameMembers ss ts = true → ss = ts
  | [], [], _ => rfl
  | _ :: _, _ :: _, h => by
    simp only [sameMembers, Bool.and_eq_true] at h
    simp [eq_of_same h.1, eq_of_sameMembers h.2]

theorem eq_of_sameFields : ∀ {ss ts : List (String × Ty)}, sameFields ss ts = true → ss = ts
  | [], [], _ => rfl
  | (_, _) :: _, (_, _) :: _, h => by
    simp only [sameFields, Bool.and_eq_true, beq_iff_eq] at h
    simp [h.1.1, eq_of_same h.1.2, eq_of_sameFields h.2]

end

instance : DecidableEq Ty := fun s t =>
  if h : s.same t = true then isTrue (eq_of_same h)
  else isFalse fun e => h (e ▸ same_self s)

mutual

/-- Bytes that a value takes in the native layout of memory, storage and code, clamped at the
largest size.  A mapping takes the word of its slot. -/
def layoutSize : Ty → Nat
  | .uint _ | .int _ | .bool | .address | .fixedBytes _ | .mapping _ _ => Size.wordBytes
  | .bytes bound | .string bound => Size.add (Size.roundUp bound) Size.wordBytes
  | .array elem n => Size.mul n elem.layoutSize
  | .dynArray elem bound => Size.add (Size.mul bound elem.layoutSize) Size.wordBytes
  | .tuple members => membersLayoutSize 0 members
  | .struct _ fields => fieldsLayoutSize 0 fields

def membersLayoutSize (start : Nat) : List Ty → Nat
  | [] => start
  | t :: ts => membersLayoutSize (Size.add start t.layoutSize) ts

def fieldsLayoutSize (start : Nat) : List (String × Ty) → Nat
  | [] => start
  | f :: fs => fieldsLayoutSize (Size.add start f.2.layoutSize) fs

end

def isMapping : Ty → Bool
  | .mapping _ _ => true
  | _ => false

/-- Every value of the type takes exactly one word. -/
def isWord : Ty → Bool
  | .uint _ | .int _ | .bool | .address | .fixedBytes _ => true
  | _ => false

mutual

def text : Ty → String
  | .uint bits => s!"uint{bits}"
  | .int bits => s!"int{bits}"
  | .bool => "bool"
  | .address => "address"
  | .fixedBytes size => s!"bytes{size}"
  | .bytes bound => s!"Bytes[{bound}]"
  | .string bound => s!"String[{bound}]"
  | .array elem n => s!"{elem.text}[{n}]"
  | .dynArray elem bound => s!"DynArray[{elem.text}, {bound}]"
  | .tuple members => "(" ++ ", ".intercalate (memberTexts members) ++ ")"
  | .struct name fields => name ++ "\x7b" ++ ", ".intercalate (fieldTexts fields) ++ "\x7d"
  | .mapping key value => s!"HashMap[{key.text}, {value.text}]"

def memberTexts : List Ty → List String
  | [] => []
  | t :: ts => t.text :: memberTexts ts

def fieldTexts : List (String × Ty) → List String
  | [] => []
  | f :: fs => s!"{f.1}: {f.2.text}" :: fieldTexts fs

end

instance : ToString Ty := ⟨text⟩

end Ty

end EvmInspect
