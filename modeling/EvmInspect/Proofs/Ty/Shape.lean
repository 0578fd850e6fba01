import EvmInspect.Abi.Encode
import EvmInspect.Proofs.Basic
import EvmInspect.Ty.Legal
/-!
# Shapes of declared types

Induction over declared types and their members, and conditions that hold at every depth of a type.
Four of them are named: the widths are those that type text can write, lengths and bounds are
addressable, no value of the type is made of nothing, and there is no mapping.  A struct goes
through the call interface as the tuple of its members, so that what holds of lists of members is
said once for both.
-/

namespace EvmInspect.Ty

/-! ## Induction over members -/

/-- Induction over a declared type, with the hypothesis for each member of a tuple or struct. -/
@[elab_as_elim]
theorem memberInduction {motive : Ty → Prop} (uint : ∀ bits, motive (.uint bits))
    (int : ∀ bits, motive (.int bits)) (bool : motive .bool) (address : motive .address)
    (fixedBytes : ∀ size, motive (.fixedBytes size)) (bytes : ∀ bound, motive (.bytes bound))
    (string : ∀ bound, motive (.string bound))
    (array : ∀ elem n, motive elem → motive (.array elem n))
    (dynArray : ∀ elem bound, motive elem → motive (.dynArray elem bound))
    (tuple : ∀ members, (∀ t ∈ members, motive t) → motive (.tuple members))
    (struct : ∀ name fields, (∀ t ∈ fields.map Prod.snd, motive t) → motive (.struct name fields))
    (mapping : ∀ key value, motive key → motive value → motive (.mapping key value)) (t : Ty) :
    motive t := by
  -- the recursor goes through lists of members and of named members, and through named members
  refine @Ty.rec motive (fun members => ∀ t ∈ members, motive t)
    (fun fields => ∀ t ∈ fields.map Prod.snd, motive t) (fun field => motive field.2)
    uint int bool address fixedBytes bytes string array dynArray tuple struct mapping
    ?nil ?cons ?fieldsNil ?fieldsCons ?field t
  case nil | fieldsNil => simp
  case cons =>
    intro t ts ht hts
    simpa [ht] using hts
  case fieldsCons =>
    intro f fs hf hfs
    simpa [hf] using hfs
  case field =>
    intro _ _ ht
    exact ht

/-! ## Conditions at every depth -/

mutual

/-- The condition holds of the type and of every type in it. -/
def everywhere (p : Ty → Bool) : Ty → Bool
  | .array elem n => p (.array elem n) && elem.everywhere p
  | .dynArray elem bound => p (.dynArray elem bound) && elem.everywhere p
  | .tuple members => p (.tuple members) && membersEverywhere p members
  | .struct name fields => p (.struct name fields) && fieldsEverywhere p fields
  | .mapping key value => p (.mapping key value) && (key.everywhere p && value.everywhere p)
  | t => p t

def membersEverywhere (p : Ty → Bool) : List Ty → Bool
  | [] => true
  | t :: ts => t.everywhere p && membersEverywhere p ts

def fieldsEverywhere (p : Ty → Bool) : List (String × Ty) → Bool
  | [] => true
  | f :: fs => f.2.everywhere p && fieldsEverywhere p fs

end

theorem membersEverywhere_iff (p : Ty → Bool) (members : List Ty) :
    membersEverywhere p members = true ↔ ∀ t ∈ members, t.everywhere p = true := by
  induction members with
  | nil => simp [membersEverywhere]
  | cons t ts ih => simp [membersEverywhere, ih]

theorem fieldsEverywhere_eq (p : Ty → Bool) (fields : List (String × Ty)) :
    fieldsEverywhere p fields = membersEverywhere p (fields.map Prod.snd) := by
  induction fields with
  | nil => rfl
  | cons f fs ih => rw [fieldsEverywhere, ih]; rfl

theorem everywhere_tuple {p : Ty → Bool} {members : List Ty}
    (h : (Ty.tuple members).everywhere p = true) :
    p (.tuple members) = true ∧ ∀ t ∈ members, t.everywhere p = true := by
  rw [everywhere, Bool.and_eq_true, membersEverywhere_iff] at h
  exact h

theorem everywhere_struct {p : Ty → Bool} {name : String} {fields : List (String × Ty)}
    (h : (Ty.struct name fields).everywhere p = true) :
    p (.struct name fields) = true ∧ ∀ t ∈ fields.map Prod.snd, t.everywhere p = true := by
  rw [everywhere, Bool.and_eq_true, fieldsEverywhere_eq, membersEverywhere_iff] at h
  exact h

theorem everywhere_mono {p q : Ty → Bool} (h : ∀ t, p t = true → q t = true) {t : Ty}
    (ht : t.everywhere p = true) : t.everywhere q = true := by
  induction t using memberInduction with
  | uint | int | bool | address | fixedBytes | bytes | string => exact h _ ht
  | array elem n ih | dynArray elem bound ih =>
    simp only [everywhere, Bool.and_eq_true] at ht ⊢
    exact ⟨h _ ht.1, ih ht.2⟩
  | tuple members ih =>
    obtain ⟨hhere, hmembers⟩ := everywhere_tuple ht
    rw [everywhere, Bool.and_eq_true, membersEverywhere_iff]
    exact ⟨h _ hhere, fun t hmem => ih t hmem (hmembers t hmem)⟩
  | struct name fields ih =>
    obtain ⟨hhere, hmembers⟩ := everywhere_struct ht
    rw [everywhere, Bool.and_eq_true, fieldsEverywhere_eq, membersEverywhere_iff]
    exact ⟨h _ hhere, fun t hmem => ih t hmem (hmembers t hmem)⟩
  | mapping key value ihkey ihvalue =>
    simp only [everywhere, Bool.and_eq_true] at ht ⊢
    exact ⟨h _ ht.1, ihkey ht.2.1, ihvalue ht.2.2⟩

/-- A type is the other one or stands at some depth in it. -/
inductive Within (u : Ty) : Ty → Prop
  | here : Within u u
  | array {elem : Ty} (n : Nat) (h : Within u elem) : Within u (.array elem n)
  | dynArray {elem : Ty} (bound : Nat) (h : Within u elem) : Within u (.dynArray elem bound)
  | tuple {t : Ty} {members : List Ty} (hmem : t ∈ members) (h : Within u t) :
      Within u (.tuple members)
  | struct {t : Ty} {fields : List (String × Ty)} (name : String)
      (hmem : t ∈ fields.map Prod.snd) (h : Within u t) : Within u (.struct name fields)
  | key {key : Ty} (value : Ty) (h : Within u key) : Within u (.mapping key value)
  | value (key : Ty) {value : Ty} (h : Within u value) : Within u (.mapping key value)

theorem Within.of_everywhere {p : Ty → Bool} {t u : Ty} (hu : u.Within t)
    (ht : t.everywhere p = true) : p u = true := by
  induction hu with
  | here =>
    cases u with
    | uint | int | bool | address | fixedBytes | bytes | string => exact ht
    | array | dynArray | tuple | struct | mapping =>
      rw [everywhere, Bool.and_eq_true] at ht
      exact ht.1
  | array n _ ih | dynArray bound _ ih =>
    rw [everywhere, Bool.and_eq_true] at ht
    exact ih ht.2
  | tuple hmem _ ih => exact ih ((everywhere_tuple ht).2 _ hmem)
  | struct name hmem _ ih => exact ih ((everywhere_struct ht).2 _ hmem)
  | key value _ ih =>
    simp only [everywhere, Bool.and_eq_true] at ht
    exact ih ht.2.1
  | value key _ ih =>
    simp only [everywhere, Bool.and_eq_true] at ht
    exact ih ht.2.2

/-- An integer has 8 to 256 bits in whole bytes, and a fixed byte string 1 to 32 bytes. -/
def hasWidth : Ty → Bool
  | .uint bits | .int bits => 8 ∣ bits ∧ 1 ≤ bits ∧ bits ≤ 256
  | .fixedBytes size => 1 ≤ size ∧ size ≤ 32
  | _ => true

/-- An array of fixed length, tuple or struct has something in it. -/
def hasMember : Ty → Bool
  | .array _ n => n != 0
  | .tuple members => !members.isEmpty
  | .struct _ fields => !fields.isEmpty
  | _ => true

/-- A length or bound is addressable. -/
def hasBound : Ty → Bool
  | .bytes bound | .string bound | .array _ bound | .dynArray _ bound => bound ≤ Size.limit
  | _ => true

def wellSized (t : Ty) : Bool := t.everywhere hasWidth

theorem wellSized_int {bits : Nat} :
    (Ty.int bits).wellSized = true ↔ 8 ∣ bits ∧ 1 ≤ bits ∧ bits ≤ 256 :=
  decide_eq_true_iff

theorem wellSized_fixedBytes {size : Nat} :
    (Ty.fixedBytes size).wellSized = true ↔ 1 ≤ size ∧ size ≤ 32 :=
  decide_eq_true_iff

theorem wellSized_array {elem : Ty} {n : Nat} :
    (Ty.array elem n).wellSized = true ↔ elem.wellSized = true :=
  Iff.rfl

theorem wellSized_dynArray {elem : Ty} {bound : Nat} :
    (Ty.dynArray elem bound).wellSized = true ↔ elem.wellSized = true :=
  Iff.rfl

def solid (t : Ty) : Bool := t.everywhere hasMember

def mappingFree (t : Ty) : Bool := t.everywhere fun u => !u.isMapping

def addressable (t : Ty) : Bool := t.everywhere hasBound

/-! ## Lists of members -/

theorem fieldAbiTypes?_eq (fields : List (String × Ty)) :
    fieldAbiTypes? fields = abiTypes? (fields.map Prod.snd) := by
  induction fields with
  | nil => rfl
  | cons f fs ih => rw [fieldAbiTypes?, ih]; rfl

theorem abiTypes?_eq_some {members : List Ty} {types : List AbiType}
    (h : abiTypes? members = some types) :
    List.Forall₂ (fun t a => t.abiType? = some a) members types := by
  induction members generalizing types with
  | nil =>
    rw [abiTypes?, Option.some.injEq] at h
    exact h ▸ .nil
  | cons t ts ih =>
    simp only [abiTypes?, Option.bind_eq_some_iff, Option.map_eq_some_iff] at h
    obtain ⟨a, ha, as, has, rfl⟩ := h
    exact .cons ha (ih has)

theorem checkEach_eq_ok {ε : Type} {check : Value → Except ε Unit} {items : List Value}
    (h : checkEach check items = .ok ()) : ∀ v ∈ items, check v = .ok () := by
  induction items with
  | nil => simp
  | cons v vs ih =>
    rw [checkEach] at h
    cases hv : check v with
    | error e => simp [hv] at h
    | ok u =>
      rw [hv] at h
      exact List.forall_mem_cons.2 ⟨hv, ih h⟩

theorem checkFields_eq (fields : List (String × Ty)) (items : List Value) :
    checkFields fields items = checkMembers (fields.map Prod.snd) items := by
  induction fields generalizing items with
  | nil => rw [checkFields, List.map_nil, checkMembers] <;> simp
  | cons f fs ih =>
    cases items with
    | nil => rw [checkFields, List.map_cons, checkMembers] <;> simp
    | cons v vs => rw [checkFields, List.map_cons, checkMembers, ih]

theorem check_tuple_eq_ok {members : List Ty} {v : Value} : (Ty.tuple members).check v = .ok () ↔
    ∃ items, v = .tuple items ∧ members.length = items.length ∧
      checkMembers members items = .ok () := by
  cases v <;> simp [check, ite_error_eq_ok]

theorem check_struct_eq_ok {name : String} {fields : List (String × Ty)} {v : Value} :
    (Ty.struct name fields).check v = .ok () ↔
      ∃ items, v = .tuple items ∧ (fields.map Prod.snd).length = items.length ∧
        checkMembers (fields.map Prod.snd) items = .ok () := by
  cases v <;> simp [check, ite_error_eq_ok, checkFields_eq]

theorem checkMembers_eq_ok {members : List Ty} {items : List Value}
    (hlen : members.length = items.length) (h : checkMembers members items = .ok ()) :
    List.Forall₂ (fun t v => t.check v = .ok ()) members items := by
  induction members generalizing items with
  | nil =>
    rw [List.length_nil] at hlen
    exact List.length_eq_zero_iff.1 hlen.symm ▸ .nil
  | cons t ts ih =>
    cases items with
    | nil => simp at hlen
    | cons v vs =>
      rw [checkMembers] at h
      cases hv : t.check v with
      | error e => simp [hv] at h
      | ok u =>
        rw [hv] at h
        exact .cons hv (ih (Nat.succ.inj hlen) h)

end EvmInspect.Ty

namespace EvmInspect.AbiType

theorem allMatch_eq_true {types : List AbiType} {items : List Value}
    (hlen : types.length = items.length) (h : allMatch types items = true) :
    List.Forall₂ (fun a v => a.matchesValue v = true) types items := by
  induction types generalizing items with
  | nil =>
    rw [List.length_nil] at hlen
    exact List.length_eq_zero_iff.1 hlen.symm ▸ .nil
  | cons a as ih =>
    cases items with
    | nil => simp at hlen
    | cons v vs =>
      rw [allMatch, Bool.and_eq_true] at h
      exact .cons h.1 (ih (Nat.succ.inj hlen) h.2)

end EvmInspect.AbiType
